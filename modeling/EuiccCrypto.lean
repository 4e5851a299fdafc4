import EuiccCrypto.Lib.Octets
import EuiccCrypto.Lib.Tlv
import EuiccCrypto.Lib.Distinguished
import EuiccCrypto.Lib.Cbc
import EuiccCrypto.Lib.MacChain
import EuiccCrypto.Lib.Search
import EuiccCrypto.Lib.Runs
import EuiccCrypto.Lib.Expansion
import EuiccCrypto.Lib.Selection
import EuiccCrypto.Lib.Base64
import EuiccCrypto.Exec
import EuiccCrypto.Der
import EuiccCrypto.Wire
import EuiccCrypto.Kdf
import EuiccCrypto.Cbc128
import EuiccCrypto.X963
import EuiccCrypto.Bsp
import EuiccCrypto.Bsp.Calls
import EuiccCrypto.Bsp.Session
import EuiccCrypto.Bsp.WireForms
import EuiccCrypto.Bsp.Keys
import EuiccCrypto.Ecdsa
import EuiccCrypto.X509
import EuiccCrypto.Der.Shortest
import EuiccCrypto.X509.Layout
import EuiccCrypto.X509.NamedCurve
import EuiccCrypto.X509.WellFormed
import EuiccCrypto.X509.Signed
import EuiccCrypto.X509.Readers
import EuiccCrypto.X509.Occurrences
import EuiccCrypto.X509.SignedContent
import EuiccCrypto.X509.Roles
import EuiccCrypto.X509.SubjectSerial
import EuiccCrypto.X509.Policies
import EuiccCrypto.X509.Extensions
import EuiccCrypto.TestPki
import EuiccCrypto.TestPki.Readers
import EuiccCrypto.TestPki.Distinguished
import EuiccCrypto.Ci
import EuiccCrypto.Pem
import EuiccCrypto.Pem.Base64
import EuiccCrypto.Pem.Blocks
import EuiccCrypto.Pem.Lines
import EuiccCrypto.Pem.Render
import EuiccCrypto.Sgp26
import EuiccCrypto.Sgp26.Verify
import EuiccCrypto.Sgp26.Role
import EuiccCrypto.Sgp26.Pkcs8
import EuiccCrypto.Sgp26.Published
import EuiccCrypto.Sgp26.Eid
import EuiccCrypto.Usize
import EuiccCrypto.Usize.Walks
import EuiccCrypto.Usize.Parts
import EuiccCrypto.Usize.Readers
import EuiccCrypto.Usize.Bounds
import EuiccCrypto.Usize.Agreement
import EuiccCrypto.X509.Forgery
import EuiccCrypto.AuthenticateServer
import EuiccCrypto.Bsp.Channel
import EuiccCrypto.Bsp.SecureChannel
import EuiccCrypto.TbsMatch
