import GoSignatures.Error
import Mathlib.Data.List.Basic

/-!
# Diagnostics of one line

A diagnostic is a code in brackets, a blank and the message of an error. The wording of the messages
is all in one line, but they take over texts from elsewhere: paths, names from sources, and what a
library or the system has to say. So a diagnostic is one line if all these texts are.

* `BatchError.texts` — the texts that a message takes over
* `BatchError.line` — the diagnostic as it is shown
* `BatchError.isLine_line_iff` — it is one line just if no text breaks it
-/

namespace GoSignatures

variable {e : BatchError}

/-! ## Texts in messages -/

/-- The texts that a cause takes over. -/
def IoCause.texts : IoCause → List String
  | other text => [text]
  | _ => []

/-- The texts that a message takes over. -/
def IoError.texts : IoError → List String
  | read path cause => path :: cause.texts
  | write path cause => path :: cause.texts
  | fileTooLarge path _ _ => [path]

/-- The texts that a message takes over. -/
def RequestError.texts : RequestError → List String
  | malformed path detail => [path, detail]
  | serialize detail => [detail]

/-- The texts that a message takes over. -/
def ParseError.texts : ParseError → List String
  | grammarUnavailable detail => [detail]
  | noTree path detail => [path, detail]
  | malformed path _ _ detail => [path, detail]
  | missingPackageClause path => [path]
  | invalidEncoding path => [path]

/-- The texts that a cause takes over. -/
def ResolveCause.texts : ResolveCause → List String
  | undefinedType name => [name]
  | undefinedPackage qualifier => [qualifier]
  | notAType name => [name]
  | invalidRecursiveType name => [name]
  | redeclared name => [name]
  | duplicateMethod receiver name => [receiver, name]
  | typeArgumentCount name _ _ => [name]

/-- The texts that a message takes over. -/
def ConfigError.texts : ConfigError → List String
  | fileNotFound path => [path]
  | malformed path detail => [path, detail]
  | validationFailed field detail => [field, detail]
  | invalidValue field detail => [field, detail]

/-- The texts that a message takes over. -/
def BatchError.texts : BatchError → List String
  | io e => e.texts
  | request e => e.texts
  | parse e => e.texts
  | resolve e => e.path :: e.cause.texts
  | config e => e.texts

section Messages

theorem toString_string (s : String) : toString s = s := rfl

/-- Numbers are written with digits only. -/
@[local simp] theorem lineFeed_notMem_toDigits (n : Nat) : '\n' ∉ Nat.toDigits 10 n := fun h => by
  have hdigit := Nat.isDigit_of_mem_toDigits (by decide) (by decide) h
  simp at hdigit

/-- For each sort of error: only the texts that its message takes over may have line feeds. -/
theorem IoCause.lineFeed_notMem_message (cause : IoCause) :
    '\n' ∉ cause.message.toList ↔ ∀ text ∈ cause.texts, '\n' ∉ text.toList := by
  cases cause <;> unfold message texts <;> simp

theorem IoError.lineFeed_notMem_message (e : IoError) :
    '\n' ∉ e.message.toList ↔ ∀ text ∈ e.texts, '\n' ∉ text.toList := by
  cases e <;> unfold message texts <;> simp only [toString_string] <;>
    simp [IoCause.lineFeed_notMem_message]

theorem RequestError.lineFeed_notMem_message (e : RequestError) :
    '\n' ∉ e.message.toList ↔ ∀ text ∈ e.texts, '\n' ∉ text.toList := by
  cases e <;> unfold message texts <;> simp only [toString_string] <;> simp

theorem ParseError.lineFeed_notMem_message (e : ParseError) :
    '\n' ∉ e.message.toList ↔ ∀ text ∈ e.texts, '\n' ∉ text.toList := by
  cases e <;> unfold message texts <;> simp only [toString_string] <;> simp

theorem ResolveCause.lineFeed_notMem_message (cause : ResolveCause) :
    '\n' ∉ cause.message.toList ↔ ∀ text ∈ cause.texts, '\n' ∉ text.toList := by
  cases cause <;> unfold message texts <;> simp only [toString_string] <;> simp

theorem ConfigError.lineFeed_notMem_message (e : ConfigError) :
    '\n' ∉ e.message.toList ↔ ∀ text ∈ e.texts, '\n' ∉ text.toList := by
  cases e <;> unfold message texts <;> simp only [toString_string] <;> simp

/-- A message is in one line if all texts are that it takes over. -/
theorem BatchError.lineFeed_notMem_message (e : BatchError) :
    '\n' ∉ e.message.toList ↔ ∀ text ∈ e.texts, '\n' ∉ text.toList := by
  rw [message, String.toList_append, String.toList_append]
  cases e with
  | io e => simpa [family, ownMessage, texts] using e.lineFeed_notMem_message
  | request e => simpa [family, ownMessage, texts] using e.lineFeed_notMem_message
  | parse e => simpa [family, ownMessage, texts] using e.lineFeed_notMem_message
  | resolve e =>
    unfold family ownMessage texts ResolveError.message
    simp only [toString_string]
    simp [ResolveCause.lineFeed_notMem_message]
  | config e => simpa [family, ownMessage, texts] using e.lineFeed_notMem_message

end Messages

/-! ## Lines -/

/-- A text is one line: it ends in a line feed and has no other. -/
def IsLine (text : String) : Prop :=
  ∃ content : String, '\n' ∉ content.toList ∧ text = content ++ "\n"

namespace BatchError

/-- The diagnostic as it is shown: a code in brackets, the message and a line feed. -/
def line (e : BatchError) : String :=
  "[" ++ e.code ++ "] " ++ e.message ++ "\n"

/-- A diagnostic is one line just if no text in its message breaks it. -/
theorem isLine_line_iff : IsLine e.line ↔ ∀ text ∈ e.texts, '\n' ∉ text.toList := by
  have hcode : '\n' ∉ e.code.toList := by
    cases e <;> simp [code, IoError.code, RequestError.code, ParseError.code, ResolveError.code,
      ConfigError.code]
  rw [← lineFeed_notMem_message]
  constructor
  · rintro ⟨content, hcontent, h⟩
    have hparts : ("[" ++ e.code ++ "] " ++ e.message).toList = content.toList := by
      have hline : ("[" ++ e.code ++ "] " ++ e.message).toList ++ "\n".toList =
          content.toList ++ "\n".toList := by
        simpa only [line, String.toList_append] using congrArg String.toList h
      exact List.append_cancel_right hline
    rw [← hparts] at hcontent
    simpa [hcode] using hcontent
  · exact fun h => ⟨_, by simpa [hcode] using h, rfl⟩

end BatchError

end GoSignatures
