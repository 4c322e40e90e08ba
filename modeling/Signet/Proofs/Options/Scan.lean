import Signet.Options
import Signet.Proofs.Env.Lists

/-! # The scan of an option list

What an option look-up results in depends on the walk of the list alone, one entry at a time: an
entry decides or is skipped, and the end of the walk counts only if no entry has decided. -/
namespace Signet.Options

/-- The result of looking up `key` in a list that has been walked. -/
def scan (key : String) (default : Term) (walked : List Term × Option TermError) :
    Except ErrorKind Term :=
  match decide? key walked.1, walked.2 with
  | some decided, _ => decided
  | none, some e => .error e.kind
  | none, none => .ok default

theorem result_get (key : String) (options default : Term) (E : Env) :
    (get key options default E).result =
      scan key default (E.walk defaultListLimit defaultListLimit options) := by
  unfold get scan
  rw [E.items_eq_walk]
  dsimp only
  split <;> simp_all <;> rfl

variable {key : String} {default : Term} {walked : List Term × Option TermError}

theorem scan_nil : scan key default ([], none) = .ok default := rfl

theorem scan_stop (e : TermError) : scan key default ([], some e) = .error e.kind := rfl

theorem scan_value (value : Term) :
    scan key default (.compound key [value] :: walked.1, walked.2) = .ok value := by
  simp [scan, decide?]

theorem scan_arity {args : List Term} (h : args.length ≠ 1) :
    scan key default (.compound key args :: walked.1, walked.2) =
      .error (.domain "option" (.compound key args) []) := by
  match args with
  | [] | _ :: _ :: _ => simp [scan, decide?]
  | [_] => exact absurd rfl h

theorem scan_skip {f : String} (args : List Term) (h : f ≠ key) :
    scan key default (.compound f args :: walked.1, walked.2) = scan key default walked := by
  simp [scan, decide?, h]

theorem scan_var (v : Nat) :
    scan key default (.var v :: walked.1, walked.2) = .error (.instantiation (.var v)) :=
  rfl

theorem scan_atom (a : String) :
    scan key default (.atom a :: walked.1, walked.2) = .error (.type .compound (.atom a)) :=
  rfl

theorem scan_int (i : Int64) :
    scan key default (.int i :: walked.1, walked.2) = .error (.type .compound (.int i)) :=
  rfl

/-- The default is handed out as it is, so what is done to it can be done before. -/
theorem map_scan_default {f : Term → Term} {default' : Term} (h : f default' = f default) :
    (scan key default' walked).map f = (scan key default walked).map f := by
  unfold scan
  split <;> simp [Except.map, h]

end Signet.Options
