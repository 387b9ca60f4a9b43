/-
  TinyOs.Logic.Sections — programs cut at their accesses to a state they share.

  In a `Code` every access to the shared state is a step of its own; what is computed
  from the values read sits in the continuation, as registers do. `Code.run` runs it to
  its end with nobody in between.

  `Serial` is what mutual exclusion buys: the shared state is what whole programs left
  one after the other, the last one perhaps not at its end yet.
  - `Serial.enter`, `Serial.act`, `Serial.leave`: a program begins, makes an access, ends.
  - `runAll_ok`: what whole programs leave, from what each of them does alone.
-/

import Mathlib.Data.List.Induction
import TinyOs.Logic.Runs

namespace TinyOs.Logic

inductive Code (σ ε : Type) where
  | done
  /-- One access, and what follows on the state it found. -/
  | act (f : σ → Except ε σ) (next : σ → Code σ ε)

namespace Code

variable {σ ε : Type}

def run : Code σ ε → σ → Except ε σ
  | .done, s => .ok s
  | .act f next, s => do
    let s' ← f s
    (next s).run s'

@[simp] theorem run_done (s : σ) : (.done : Code σ ε).run s = .ok s := rfl

theorem run_act (f : σ → Except ε σ) (next : σ → Code σ ε) (s : σ) :
    (Code.act f next).run s = (do let s' ← f s; (next s).run s') := rfl

/-- An access that changes nothing: its value is used in what follows. -/
def read {β : Type} (get : σ → β) (k : β → Code σ ε) : Code σ ε := .act .ok fun s => k (get s)

/-- An access that cannot be refused. -/
def write (f : σ → σ) (k : Code σ ε) : Code σ ε := .act (fun s => .ok (f s)) fun _ => k

/-- An access that may be refused. -/
def attempt (f : σ → Except ε σ) (k : Code σ ε) : Code σ ε := .act f fun _ => k

/-- Nothing follows. -/
def fail (e : ε) : Code σ ε := .act (fun _ => .error e) fun _ => .done

/-- An access that changes nothing and may be refused. -/
def fetch {β : Type} (get : σ → Except ε β) (k : β → Code σ ε) : Code σ ε :=
  .act (fun s => (get s).map fun _ => s) fun s =>
    match get s with
    | .ok b => k b
    | .error e => fail e

@[simp] theorem run_read {β : Type} (get : σ → β) (k : β → Code σ ε) (s : σ) : (read get k).run s = (k (get s)).run s := rfl

@[simp] theorem run_write (f : σ → σ) (k : Code σ ε) (s : σ) : (write f k).run s = k.run (f s) := rfl

@[simp] theorem run_attempt (f : σ → Except ε σ) (k : Code σ ε) (s : σ) : (attempt f k).run s =
    (do let s' ← f s; k.run s') := rfl

@[simp] theorem run_fail (e : ε) (s : σ) : (fail e : Code σ ε).run s = .error e := rfl

@[simp] theorem run_fetch {β : Type} (get : σ → Except ε β) (k : β → Code σ ε) (s : σ) : (fetch get k).run s =
    (do let b ← get s; (k b).run s) := by
  unfold fetch
  rw [run_act]
  cases get s with
  | error e => rfl
  | ok b => rfl

end Code

variable {σ ε μ : Type} {code : μ → Code σ ε} {init s s' : σ} {log : List μ}

/-- Whole programs, one after the other. -/
def runAll (code : μ → Code σ ε) (log : List μ) (s : σ) : Except ε σ := log.foldlM (fun s m => (code m).run s) s

theorem runAll_concat (code : μ → Code σ ε) (log : List μ) (m : μ) (s : σ) :
    runAll code (log ++ [m]) s = (do let s' ← runAll code log s; (code m).run s') := by
  unfold runAll
  rw [List.foldlM_append]
  refine congrArg _ (funext fun s' => ?_)
  rw [List.foldlM_cons]
  exact bind_pure _

/-- After `log`, from `init`, the state is `s`: with no program begun, or with `m` begun and
`rest` still to do. -/
def Serial (code : μ → Code σ ε) (init : σ) (log : List μ) (s : σ) : Option (μ × Code σ ε) → Prop
  | none => runAll code log init = .ok s
  | some (m, rest) => rest.run s = runAll code (log ++ [m]) init

theorem Serial.first (code : μ → Code σ ε) (s : σ) : Serial code s [] s none := rfl

theorem Serial.enter (h : Serial code init log s none) (m : μ) : Serial code init log s (some (m, code m)) := by
  have hs : runAll code log init = .ok s := h
  show (code m).run s = runAll code (log ++ [m]) init
  rw [runAll_concat, hs, ok_bind]

theorem Serial.act {m : μ} {f : σ → Except ε σ} {next : σ → Code σ ε} (h : Serial code init log s (some (m, .act f next)))
    (hf : f s = .ok s') : Serial code init log s' (some (m, next s)) := by
  have hrun : (Code.act f next).run s = runAll code (log ++ [m]) init := h
  rw [Code.run_act, hf, ok_bind] at hrun
  exact hrun

theorem Serial.leave {m : μ} (h : Serial code init log s (some (m, .done))) : Serial code init (log ++ [m]) s none :=
  Eq.symm h

/-- What holds after any whole programs, from what each of them does alone. -/
theorem runAll_ok {Q : List μ → σ → Prop} {legal : μ → Prop} (h0 : Q [] init)
    (hstep : ∀ log m s, legal m → Q log s → ∃ s', (code m).run s = .ok s' ∧ Q (log ++ [m]) s') (hlog : ∀ m ∈ log, legal m) :
    ∃ s', runAll code log init = .ok s' ∧ Q log s' := by
  induction log using List.reverseRecOn with
  | nil => exact ⟨init, rfl, h0⟩
  | append_singleton log m ih =>
    obtain ⟨s', he, hq⟩ := ih fun m' hm' => hlog m' (List.mem_append_left _ hm')
    rw [runAll_concat, he]
    exact hstep log m s' (hlog m (by simp)) hq

end TinyOs.Logic
