import Azbridge.Broker.Reports
import Azbridge.Broker.Tokens
import Azbridge.Broker.Cloud
import Azbridge.Broker.Administrators
import Azbridge.Broker.Deletion
import Azbridge.Broker.Removal
import Azbridge.Broker.Naming
import Azbridge.Broker.Indexing
import Azbridge.Broker.Credentials
import Azbridge.Hosts.Isolation
import Azbridge.Hosts.Runs
import Azbridge.Hosts.Browser
import Azbridge.Relays.Agreement
import Azbridge.Relays.Startup
import Azbridge.Arm.Cache
import Azbridge.Runtime.Stream
import Azbridge.Runtime.Udp
import Azbridge.Runtime.Handshake
import Azbridge.Runtime.Lifecycle
import Azbridge.Runtime.Requests
import Azbridge.Hosts.Removal
import Azbridge.Hosts.Ranges
import Azbridge.Broker.Memory
import Azbridge.Broker.Listing
import Azbridge.Arm.Provision
import Azbridge.Runtime.RemoteStart
import Azbridge.Broker.Addressing
import Azbridge.Broker.Enrollment
import Azbridge.Runtime.Datagram
import Azbridge.Runtime.TokenProvider
import Azbridge.Runtime.Accepting
import Azbridge.Runtime.Prediction
import Azbridge.Runtime.StreamPump
import Azbridge.Arm.Classification
import Azbridge.Runtime.Overflow
import Azbridge.Cli.Grammar
import Azbridge.Cli.Loading
import Azbridge.Runtime.PathMapping
import Azbridge.Broker.RateLimit
import Azbridge.Arm.Issuing
import Azbridge.Runtime.Bootstrap
import Azbridge.Broker.Revocation
import Azbridge.Broker.Keys
import Azbridge.Runtime.TokenText
import Azbridge.Web.CredentialText
import Azbridge.Web.Import
import Azbridge.Broker.Grants
import Azbridge.Broker.Numbering
