import KafkaCharm.Lib.Runs
import KafkaCharm.Lib.Fallible
import KafkaCharm.Lib.Text
import KafkaCharm.Workload
import KafkaCharm.Acl
import KafkaCharm.AclListing
import KafkaCharm.AuthManager
import KafkaCharm.Revocation
import KafkaCharm.Lib.Dict
import KafkaCharm.Provider
import KafkaCharm.Quorum
import KafkaCharm.Balancer
import KafkaCharm.Capacity
import KafkaCharm.Bootstrap
import KafkaCharm.Credentials
import KafkaCharm.ClientTruststore
import KafkaCharm.PeerTls
import KafkaCharm.RotationSafety
import KafkaCharm.RotationProgress
import KafkaCharm.CapacityStore
import KafkaCharm.NodeIds
import KafkaCharm.TrustPublication
import KafkaCharm.Lib.Json
import KafkaCharm.ClientRequest
import KafkaCharm.ClientUsers
import KafkaCharm.AclUpdate
import KafkaCharm.MtlsClients
import KafkaCharm.GrantRevocation
import KafkaCharm.ClientUserRefinement
import KafkaCharm.ClusterState
import KafkaCharm.Lib.Lines
import KafkaCharm.CharmConfig
import KafkaCharm.Listeners
import KafkaCharm.ServerProperties
import KafkaCharm.Lib.Regex
import KafkaCharm.PrincipalRules
import KafkaCharm.PrincipalRuleLists
import KafkaCharm.Lib.Template
import KafkaCharm.PrincipalMapping
import KafkaCharm.Certificates
import KafkaCharm.Lib.Hex
import KafkaCharm.ListenerMap
import KafkaCharm.TruststoreListing
import KafkaCharm.TruststoreRebuild
import KafkaCharm.TruststoreRefinement
import KafkaCharm.CleanResults
import KafkaCharm.Environment
import KafkaCharm.ExtraListeners
import KafkaCharm.Lib.Base64
import KafkaCharm.LogDirs
import KafkaCharm.PrivateKey
import KafkaCharm.Sans
import KafkaCharm.ClientDecoding
import KafkaCharm.ClientResponses
import KafkaCharm.SuperUsers
import KafkaCharm.AclBlocks
import KafkaCharm.BackReferences
import KafkaCharm.CertRemoval
import KafkaCharm.ClientIsolation
import KafkaCharm.Fingerprints
import KafkaCharm.NumericOptions
import KafkaCharm.QuorumListing
import KafkaCharm.Handshake
import KafkaCharm.HandshakeProgress
import KafkaCharm.RollingOps
import KafkaCharm.RollingOpsProgress
import KafkaCharm.CruiseControl
import KafkaCharm.CruiseControlRestarts
import KafkaCharm.ExternalRouting
import KafkaCharm.PeerStore
import KafkaCharm.QuorumMembers
import KafkaCharm.SharedSecrets
import KafkaCharm.AdmittedClients
