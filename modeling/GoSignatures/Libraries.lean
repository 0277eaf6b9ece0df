/-!
# What is left to libraries

Some of what a run shows is none of the program's own doing: how a refused document is explained,
and in which order the entries of a map are visited, which may be another one each time.

* `Libraries` — any libraries that the program may be run with
* `Libraries.plain` — the plainest ones
-/

namespace GoSignatures

/-- What is left to libraries. -/
structure Libraries where
  /-- Why a text is no request document. -/
  requestDetail : String → String
  /-- Why a text is no configuration document. -/
  configDetail : String → String
  /-- The entries of a map in the order in which they are visited. -/
  visit : List (String × String) → List (String × String)
  perm_visit : ∀ entries, (visit entries).Perm entries

/-- Libraries that explain nothing and visit entries in the order in which they are written. -/
def Libraries.plain : Libraries where
  requestDetail _ := "not a request document"
  configDetail _ := "not a configuration document"
  visit entries := entries
  perm_visit _ := .refl _

end GoSignatures
