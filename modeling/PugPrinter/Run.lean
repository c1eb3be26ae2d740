import PugPrinter.Fault

/-!
Runs: what an operation puts out, item by item, until it ends with a result or is stopped by a
fault. What was put out before a fault stays.
-/

set_option autoImplicit false

namespace PugPrinter

/-- The output of an operation and how it ended. -/
structure Run (ω α : Type) where
  out : List ω
  result : Except Fault α

namespace Run

variable {ω α β : Type}

def done (a : α) : Run ω α := ⟨[], .ok a⟩

def fail (fault : Fault) : Run ω α := ⟨[], .error fault⟩

def put (items : List ω) : Run ω Unit := ⟨items, .ok ()⟩

def ofExcept (result : Except Fault α) : Run ω α := ⟨[], result⟩

def andThen (first : Run ω α) (next : α → Run ω β) : Run ω β :=
  match first.result with
  | .ok a =>
    let second := next a
    ⟨first.out ++ second.out, second.result⟩
  | .error fault => ⟨first.out, .error fault⟩

instance : Monad (Run ω) where
  pure := done
  bind := andThen

def mapOut {ω' : Type} (f : ω → ω') (run : Run ω α) : Run ω' α :=
  ⟨run.out.map f, run.result⟩

end Run

end PugPrinter
