import CertTransparency.Crypto.Sha256
import CertTransparency.Fixchain.Bag
import CertTransparency.Fixchain.Logger.Basic
import CertTransparency.Fixchain.Logger.Invariants
import CertTransparency.Fixchain.Logger.Exec
import CertTransparency.Fixchain.Logger.Races
import CertTransparency.Scanner.Fetcher.Basic
import CertTransparency.Scanner.Fetcher.Complete
import CertTransparency.Scanner.Fetcher.Disjoint
import CertTransparency.Scanner.Fetcher.Termination
import CertTransparency.Fixchain.Logger.Liveness
import CertTransparency.Integration.Config
import CertTransparency.Integration.Pending
import CertTransparency.Ctfe.Oids
import CertTransparency.Integration.Hammer
import CertTransparency.Integration.Chains
