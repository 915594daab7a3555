import GatewayClient.Proofs.Catalog.Listing
import GatewayClient.Proofs.Client.Acknowledged
import GatewayClient.Proofs.Client.Addressed
import GatewayClient.Proofs.Client.Agreement
import GatewayClient.Proofs.Client.AllOrNone
import GatewayClient.Proofs.Client.AnyOrder
import GatewayClient.Proofs.Client.Deadlines
import GatewayClient.Proofs.Client.NeverEarly
import GatewayClient.Proofs.Client.NoTrace
import GatewayClient.Proofs.Client.NothingLeft
import GatewayClient.Proofs.Client.ProviderLifecycle
import GatewayClient.Proofs.Client.Reception
import GatewayClient.Proofs.Correlation.FirstRemover
import GatewayClient.Proofs.Correlation.FreshId
import GatewayClient.Proofs.Correlation.Ledger
import GatewayClient.Proofs.Correlation.Sweep
import GatewayClient.Proofs.Frame.ErrorCode
import GatewayClient.Proofs.Frame.RoundTrip
import GatewayClient.Proofs.Gate.Pruning
import GatewayClient.Proofs.Logging.Install
import GatewayClient.Proofs.Session.Schedule
import GatewayClient.Proofs.Settings.Duration
import GatewayClient.Proofs.Settings.Override
import GatewayClient.Proofs.Shape.RoundTrip
import GatewayClient.Proofs.WireName
import GatewayClient.Settings.Reader
