import CallGuard.Gateway
import CallGuard.Scope.Program
import CallGuard.Session
import CallGuard.Handler
import CallGuard.Token
import CallGuard.Proofs.Checks
import CallGuard.Proofs.Headers
import CallGuard.Proofs.Gateway.Construction
import CallGuard.Proofs.Authenticator.Outcome
import CallGuard.Proofs.Authenticator.Transparency
import CallGuard.Proofs.Gateway.Spoofing
import CallGuard.Proofs.Authorizer.Verdict
import CallGuard.Proofs.Handler.Stack
import CallGuard.Proofs.Token.Acceptance
import CallGuard.Proofs.Token.Issuing
import CallGuard.Proofs.Token.Construction
import CallGuard.Proofs.Token.Restrictions
import CallGuard.Proofs.Token.Secrets
import CallGuard.Proofs.Authenticator.Keeping
import CallGuard.Proofs.Token.Expiry
import CallGuard.Proofs.Token.Failures
import CallGuard.Proofs.Token.Signing
import CallGuard.Proofs.Cache.Order
import CallGuard.Proofs.Cache.Recency
import CallGuard.Proofs.Json.Grammar
import CallGuard.Proofs.Json.Documents
import CallGuard.Proofs.Identities
import CallGuard.Proofs.Json.Characters
import CallGuard.Proofs.Propagation.Delivery
import CallGuard.Proofs.Propagation.Rights
import CallGuard.Proofs.Propagation.RoundTrip
import CallGuard.Proofs.Authorizer.Monotonicity
import CallGuard.Proofs.Authenticator.Atomicity
import CallGuard.Proofs.Authenticator.Forwarding
import CallGuard.Proofs.Cache.History
import CallGuard.Proofs.Policy.History
import CallGuard.Proofs.Authorizer.Isolation
import CallGuard.Proofs.Propagation.Stability
import CallGuard.Proofs.Handler.Nesting
import CallGuard.Proofs.Trust.Ranges
import CallGuard.Proofs.Cache.Consistency
import CallGuard.Proofs.Gateway.Agreement
import CallGuard.Proofs.Authenticator.LastWord
import CallGuard.Proofs.Session.Caching
import CallGuard.Proofs.Trust.Addresses
import CallGuard.Proofs.Gateway.Peers
import CallGuard.Proofs.Pattern.Grammar
import CallGuard.Proofs.Method.Paths
import CallGuard.Proofs.Pattern.Paths
import CallGuard.Proofs.Authorizer.Refusals
import CallGuard.Proofs.Authorizer.Precedence
import CallGuard.Proofs.Cache.Sharing
import CallGuard.Proofs.Text.Lists
import CallGuard.Proofs.Extractor.Cookies
import CallGuard.Proofs.Propagation.Confidentiality
import CallGuard.Proofs.Gateway.Separation
import CallGuard.Proofs.Gateway.Decoding
import CallGuard.Proofs.Token.Age
import CallGuard.Proofs.Token.Mapping
import CallGuard.Proofs.Authenticator.Secrecy
import CallGuard.Proofs.Identity.Building
import CallGuard.Proofs.Scope.Turns
