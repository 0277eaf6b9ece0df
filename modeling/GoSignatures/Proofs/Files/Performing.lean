import Mathlib.Control.Monad.Writer
import GoSignatures.Batch
import GoSignatures.Proofs.Outcome

/-!
# Steps on a file system

A step of the program, performed from a state of a file system, comes to an answer, leaves a state
and logs events. What a step that is built of others comes to is put together from what those come
to. Only writing changes the state.

* `outcome` — what a step comes to, with one lemma for each way to build steps
* `FileSystem.recorder` — a file system as a host, with one lemma for each operation
* `FileSystem.text` — the content of a file as a text
* `KeepsState`, `outcome_mapM` — steps that leave the state answer each for itself
-/

namespace GoSignatures

instance : LawfulMonad (WriterT (List LogEvent) Id) where
  map_const := rfl
  id_map _ := rfl
  seqLeft_eq x y := Prod.ext rfl (congrArg (x.run.2 ++ ·) (List.append_nil y.run.2))
  seqRight_eq _ _ := rfl
  pure_seq _ _ := rfl
  bind_map _ _ := rfl
  bind_pure_comp _ x := Prod.ext rfl (List.append_nil x.run.2)
  pure_bind _ _ := Prod.ext rfl (List.nil_append _)
  bind_assoc _ _ _ := Prod.ext rfl (List.append_assoc _ _ _)

/-- Steps on the states of a file system, which log events. -/
abbrev Recorded (σ : Type) := StateT σ (WriterT (List LogEvent) Id)

/-- What a step comes to: its answer, the state that it leaves and the events that it logs. -/
@[ext] structure Outcome (σ α : Type) where
  answer : α
  state : σ
  events : List LogEvent

variable {σ α β : Type} {s s' : σ}

/-- An outcome behind some events. -/
def Outcome.after (o : Outcome σ α) (before : List LogEvent) : Outcome σ α :=
  { o with events := before ++ o.events }

namespace Outcome

variable {o : Outcome σ α} {before : List LogEvent}

@[simp] theorem after_nil : o.after [] = o := rfl

@[simp] theorem after_mk {a : α} {events : List LogEvent} :
    (⟨a, s, events⟩ : Outcome σ α).after before = ⟨a, s, before ++ events⟩ := rfl

end Outcome

/-- What a step comes to from a state. -/
def outcome (step : Recorded σ α) (s : σ) : Outcome σ α :=
  let ((answer, state), events) := (step.run s).run
  ⟨answer, state, events⟩

/-! ## Building steps -/

section Steps

variable {events : List LogEvent}

@[simp] theorem outcome_pure (a : α) : outcome (pure a) s = ⟨a, s, []⟩ := rfl

/-- The events of the first step stand before those of the second. -/
theorem outcome_bind {x : Recorded σ α} {f : α → Recorded σ β} {a : α}
    (h : outcome x s = ⟨a, s', events⟩) :
    outcome (x >>= f) s = (outcome (f a) s').after events := by
  have hbind : outcome (x >>= f) s =
      (outcome (f (outcome x s).answer) (outcome x s).state).after (outcome x s).events := rfl
  rw [hbind, h]

variable {x : ExceptT BatchError (Recorded σ) α} {f : α → ExceptT BatchError (Recorded σ) β}

/-- A step that answers is followed by the next one. -/
theorem outcome_bind_ok {a : α} (h : outcome x.run s = ⟨.ok a, s', events⟩) :
    outcome (x >>= f).run s = (outcome (f a).run s').after events :=
  outcome_bind (f := ExceptT.bindCont f) h

/-- A step that fails is the last one. -/
theorem outcome_bind_error {e : BatchError} (h : outcome x.run s = ⟨.error e, s', events⟩) :
    outcome (x >>= f).run s = ⟨.error e, s', events⟩ := by
  have hbind := outcome_bind (f := ExceptT.bindCont f) h
  exact hbind.trans (congrArg (Outcome.mk _ _) (List.append_nil events))

/-- A failure of the system becomes an error of the program. -/
theorem outcome_orFail {ε : Type} {x : Recorded σ (Except ε α)} {answer : Except ε α}
    (h : outcome x s = ⟨answer, s', events⟩) (wrap : ε → BatchError) :
    outcome (orFail wrap x).run s = ⟨answer.mapError wrap, s', events⟩ := by
  have hbind := outcome_bind (f := fun answer => pure (answer.mapError wrap)) h
  exact hbind.trans (congrArg (Outcome.mk _ _) (List.append_nil events))

end Steps

/-! ## Operations -/

namespace FileSystem

variable {fs : FileSystem σ}

/-- A file system as a host that records every event. -/
def recorder (fs : FileSystem σ) : Host (Recorded σ) :=
  fs.host fun event => tell [event]

/-- The content of a file as a text in UTF-8. -/
def text (fs : FileSystem σ) (s : σ) (path : String) : Except IoCause String :=
  match fs.read s path with
  | .error cause => .error cause
  | .ok bytes =>
    match String.fromUTF8? bytes with
    | some text => .ok text
    | none => .error .invalidText

theorem outcome_size (path : String) :
    outcome (fs.recorder.size path) s = ⟨fs.size s path, s, []⟩ := rfl

theorem outcome_read (path : String) :
    outcome (fs.recorder.read path) s = ⟨fs.read s path, s, []⟩ := rfl

theorem outcome_write (path text : String) : outcome (fs.recorder.write path text) s =
    match fs.write s path text with
    | .ok s' => ⟨.ok (), s', []⟩
    | .error cause => ⟨.error cause, s, []⟩ := by
  show outcome (match fs.write s path text with
    | .ok s' => (do
      set s'
      return .ok () : Recorded σ (Except IoCause Unit))
    | .error cause => return .error cause) s = _
  cases fs.write s path text <;> rfl

theorem outcome_isThere (path : String) :
    outcome (fs.recorder.isThere path) s = ⟨(fs.size s path).toBool, s, []⟩ := by
  rw [FileAccess.isThere, outcome_bind (outcome_size path)]
  cases fs.size s path <;> rfl

/-- Reading a text is reading its bytes, which must be UTF-8. -/
theorem outcome_readText (path : String) :
    outcome (fs.recorder.readText path) s = ⟨fs.text s path, s, []⟩ := by
  rw [FileAccess.readText, outcome_bind (outcome_read path), text]
  cases fs.read s path with
  | error cause => rfl
  | ok bytes =>
    dsimp only
    cases String.fromUTF8? bytes <;> rfl

theorem outcome_log (event : LogEvent) :
    outcome (liftM (fs.recorder.log event) : ExceptT BatchError (Recorded σ) Unit).run s =
      ⟨.ok (), s, [event]⟩ := rfl

/-- Events that are logged one after the other. -/
theorem outcome_logAll (event : α → LogEvent) (l : List α) :
    outcome (l.forM fun a =>
      (liftM (fs.recorder.log (event a)) : ExceptT BatchError (Recorded σ) Unit)).run s =
      ⟨.ok (), s, l.map event⟩ := by
  induction l with
  | nil => rfl
  | cons a l ih =>
    rw [List.forM, outcome_bind_ok (outcome_log _), ih]
    rfl

end FileSystem

/-! ## Steps that change no file -/

/-- A step leaves every state as it is. -/
def KeepsState (x : Recorded σ α) : Prop :=
  ∀ s, (outcome x s).state = s

/-- Steps that leave the state as it is answer each for itself. -/
theorem outcome_mapM {f : α → ExceptT BatchError (Recorded σ) β} (hf : ∀ a, KeepsState (f a).run)
    (l : List α) : (outcome (l.mapM f).run s).state = s ∧
      (outcome (l.mapM f).run s).answer = l.mapM fun a => (outcome (f a).run s).answer := by
  induction l with
  | nil => exact ⟨rfl, rfl⟩
  | cons a l ih =>
    obtain ⟨hstate, hanswer⟩ := ih
    rw [List.mapM_cons, List.mapM_cons]
    have hhead := hf a s
    rcases h : outcome (f a).run s with ⟨e | b, s', events⟩
    · rw [h] at hhead
      rw [outcome_bind_error h]
      exact ⟨hhead, rfl⟩
    · rw [h] at hhead
      obtain rfl : s' = s := hhead
      rw [outcome_bind_ok h]
      rcases htail : outcome (l.mapM f).run s' with ⟨e | bs, s'', events'⟩
      · rw [htail] at hstate hanswer
        rw [outcome_bind_error htail, ← hanswer]
        exact ⟨hstate, rfl⟩
      · rw [htail] at hstate hanswer
        rw [outcome_bind_ok htail, ← hanswer]
        exact ⟨hstate, rfl⟩

end GoSignatures
