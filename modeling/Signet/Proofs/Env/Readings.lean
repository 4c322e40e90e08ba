import Mathlib
import Signet.Error
import Signet.Proofs.Env.Extension

/-! # Two readings of a term

`F` reads the instance `t.bind σ` as `E` reads `t`: whatever `t` resolves to in `E`, its instance
resolves to the instance of that in `F`. Unbound variables need not be read alike, unless they are
among the `kept` ones. So a walk in `F` follows a walk in `E` item by item until the latter meets
an unbound variable that is not kept; nothing is said of what comes behind.

A result carries over likewise: values become their instances, and so do the culprits of errors.
The one way out is an error that blames an unbound variable which is not kept. -/
namespace Signet

namespace Term

/-- The instance of a variable is a variable; nothing is asked of other terms. -/
def StaysVar (σ : Nat → Term) (t : Term) : Prop := ∀ v, t = .var v → ∃ w, σ v = .var w

theorem StaysVar.isListLike {σ : Nat → Term} {t : Term} (h : t.StaysVar σ) :
    (t.bind σ).isListLike = t.isListLike := by
  cases t with
  | var v =>
    obtain ⟨w, hw⟩ := h v rfl
    rw [bind, hw]
    rfl
  | atom a => rfl
  | int i => rfl
  | compound f args =>
    rw [bind_compound]
    rcases args with _ | ⟨a, _ | ⟨b, _ | ⟨c, rest⟩⟩⟩ <;> rfl

theorem bind_ne_var {t : Term} (h : ∀ v, t ≠ .var v) (σ : Nat → Term) (w : Nat) :
    t.bind σ ≠ .var w := by
  cases t with
  | var v => exact absurd rfl (h v)
  | _ => simp [bind]

end Term

def TermError.mapCulprit (f : Term → Term) : TermError → TermError
  | .instantiation t => .instantiation (f t)
  | .type expected t => .type expected (f t)
  | .tooLong limit => .tooLong limit

namespace Env

structure Reads (E F : Env) (σ : Nat → Term) (kept : Nat → Prop) : Prop where
  var {v : Nat} : E.lookup v = none → kept v → ∃ w, σ v = .var w
  resolve {t : Term} : (∀ v, E.resolve t = .var v → kept v) →
    F.resolve (t.bind σ) = (E.resolve t).bind σ

theorem reads_apply (E : Env) : Reads E .empty (fun v => E.apply (.var v)) fun _ => True where
  var hv _ := ⟨_, apply_of_unbound hv⟩
  resolve {t} _ := by rw [empty_resolve, ← apply_eq_bind, ← apply_eq_bind, apply_resolve]

theorem reads_simplify (E : Env) :
    ∃ σ, Term.bind σ = E.simplify ∧ Reads E .empty σ fun _ => True := by
  refine ⟨_, ?_, E.reads_apply⟩
  funext t
  rw [← apply_eq_bind, simplify_eq]

theorem Extends.reads {E F : Env} (h : E.Extends F) : Reads E F .var fun _ => False where
  var _ hk := hk.elim
  resolve {t} ht := by rw [Term.bind_var, Term.bind_var, h.resolve_eq ht]

/-- The second walk agrees with the first up to the first open variable, as an item or as the
tail, that is not kept. -/
inductive Follows (E : Env) (σ : Nat → Term) (kept : Nat → Prop) :
    List Term × Option TermError → List Term × Option TermError → Prop
  | done : Follows E σ kept ([], none) ([], none)
  | stop (e : TermError) : Follows E σ kept ([], some e) ([], some (e.mapCulprit (Term.bind σ)))
  | item {t : Term} {w w' : List Term × Option TermError} :
      t.StaysVar σ → Follows E σ kept w w' →
      Follows E σ kept (t :: w.1, w.2) (t.bind σ :: w'.1, w'.2)
  | openTail {v : Nat} {w' : List Term × Option TermError} : E.lookup v = none → ¬ kept v →
      Follows E σ kept ([], some (.instantiation (.var v))) w'
  | openItem {v : Nat} {w w' : List Term × Option TermError} : E.lookup v = none → ¬ kept v →
      Follows E σ kept (.var v :: w.1, w.2) w'

namespace Reads
variable {E F : Env} {σ : Nat → Term} {kept : Nat → Prop}

theorem cases (h : Reads E F σ kept) (t : Term) :
    (∃ v, E.resolve t = .var v ∧ E.lookup v = none ∧ ¬ kept v) ∨
      F.resolve (t.bind σ) = (E.resolve t).bind σ ∧ (E.resolve t).StaysVar σ := by
  by_cases hopen : ∃ v, E.resolve t = .var v ∧ ¬ kept v
  · obtain ⟨v, hv, hk⟩ := hopen
    exact .inl ⟨v, hv, lookup_of_resolve hv, hk⟩
  · have hkept : ∀ v, E.resolve t = .var v → kept v := fun v hv => by
      by_contra hk
      exact hopen ⟨v, hv, hk⟩
    exact .inr ⟨h.resolve hkept, fun v hv => h.var (lookup_of_resolve hv) (hkept v hv)⟩

theorem walk (h : Reads E F σ kept) (limit left : Nat) (t : Term) :
    Follows E σ kept (E.walk limit left t) (F.walk limit left (t.bind σ)) := by
  rcases h.cases t with ⟨v, hv, hu, hk⟩ | ⟨hres, hvar⟩
  · rw [walk_var hv]
    exact .openTail hu hk
  rcases Term.list_cases (E.resolve t) with hr | ⟨head, tail, hr⟩ | ⟨v, hr⟩ | ⟨hv, hl⟩
  · rw [walk_nil hr, walk_nil (hres.trans (congrArg _ hr))]
    exact .done
  · have hr' : F.resolve (t.bind σ) = .cons (head.bind σ) (tail.bind σ) :=
      hres.trans (congrArg _ hr)
    cases left with
    | zero =>
      rw [walk_full hr, walk_full hr']
      exact .stop (.tooLong limit)
    | succ left =>
      rw [walk_cons hr, walk_cons hr']
      rcases h.cases head with ⟨v, hv, hu, hk⟩ | ⟨hhead, hheadvar⟩
      · rw [hv]
        exact .openItem hu hk
      · rw [hhead]
        exact .item hheadvar (h.walk limit left tail)
  · obtain ⟨w, hw⟩ := hvar v hr
    have hr' : F.resolve (t.bind σ) = .var w := by
      rw [hres, hr, ← hw]
      rfl
    rw [walk_var hr, walk_var hr', ← hw]
    exact .stop (.instantiation (.var v))
  · have hv' : ∀ w, F.resolve (t.bind σ) ≠ .var w := by
      rw [hres]
      exact Term.bind_ne_var hv σ
    have hl' : (F.resolve (t.bind σ)).isListLike = false := by
      rw [hres, hvar.isListLike, hl]
    rw [walk_improper hv hl, walk_improper hv' hl', hres]
    exact .stop (.type .list (E.resolve t))

end Reads

end Env

namespace ErrorKind

/-- The term that an error names. -/
def culprit? : ErrorKind → Option Term
  | .instantiation t | .type _ t | .domain _ t _ => some t
  | .malformed _ | .resource .. | .provider _ => none

def mapCulprit (f : Term → Term) : ErrorKind → ErrorKind
  | .instantiation t => .instantiation (f t)
  | .type expected t => .type expected (f t)
  | .domain name t permitted => .domain name (f t) permitted
  | other => other

/-- The error names a variable that is unbound and not kept. -/
def BlamesOpen (E : Env) (kept : Nat → Prop) (kind : ErrorKind) : Prop :=
  ∃ v, kind.culprit? = some (.var v) ∧ E.lookup v = none ∧ ¬ kept v

theorem mapCulprit_id (kind : ErrorKind) : kind.mapCulprit id = kind := by
  cases kind <;> rfl

end ErrorKind

theorem TermError.kind_mapCulprit (f : Term → Term) (e : TermError) :
    (e.mapCulprit f).kind = e.kind.mapCulprit f := by
  cases e <;> rfl

/-- `y` is what becomes of `x` in the second environment, whose values are those under `g`. -/
def Carries (E : Env) (σ : Nat → Term) (kept : Nat → Prop) {α β : Type} (g : α → β)
    (x : Except ErrorKind α) (y : Except ErrorKind β) : Prop :=
  (∃ kind, x = .error kind ∧ kind.BlamesOpen E kept) ∨
    y = (x.map g).mapError (ErrorKind.mapCulprit (Term.bind σ))

namespace Carries
variable {E : Env} {σ : Nat → Term} {kept : Nat → Prop} {α β γ δ : Type} {g : α → β} {k : γ → δ}

theorem ok (a : α) : Carries E σ kept g (.ok a) (.ok (g a)) := .inr rfl

theorem error (kind : ErrorKind) :
    Carries E σ kept g (.error kind) (.error (kind.mapCulprit (Term.bind σ))) :=
  .inr rfl

theorem error_of_eq {kind kind' : ErrorKind} (h : kind' = kind.mapCulprit (Term.bind σ)) :
    Carries E σ kept g (.error kind) (.error kind') :=
  h ▸ error kind

theorem blame {kind : ErrorKind} {v : Nat} {y : Except ErrorKind β}
    (hc : kind.culprit? = some (.var v)) (hv : E.lookup v = none) (hk : ¬ kept v) :
    Carries E σ kept g (.error kind) y :=
  .inl ⟨kind, rfl, v, hc, hv, hk⟩

theorem same {x : Except ErrorKind α}
    (h : ∀ kind, x = .error kind → kind.mapCulprit (Term.bind σ) = kind) :
    Carries E σ kept id x x := by
  cases x with
  | ok a => exact ok a
  | error kind => exact error_of_eq (h kind rfl).symm

theorem bind {x : Except ErrorKind α} {y : Except ErrorKind β} {f : α → Except ErrorKind γ}
    {f' : β → Except ErrorKind δ} (hx : Carries E σ kept g x y)
    (hf : ∀ a, Carries E σ kept k (f a) (f' (g a))) :
    Carries E σ kept k (x >>= f) (y >>= f') := by
  rcases hx with ⟨kind, rfl, hopen⟩ | rfl
  · exact .inl ⟨kind, rfl, hopen⟩
  · cases x with
    | ok a => exact hf a
    | error kind => exact error kind

theorem ok_of_ok {x : Except ErrorKind α} {y : Except ErrorKind β} {a : α}
    (h : Carries E σ kept g x y) (hx : x = .ok a) : y = .ok (g a) := by
  subst hx
  rcases h with ⟨kind, hkind, -⟩ | rfl
  · cases hkind
  · rfl

theorem error_of_error {x : Except ErrorKind α} {y : Except ErrorKind β} {kind : ErrorKind}
    (h : Carries E σ kept g x y) (hx : x = .error kind) :
    kind.BlamesOpen E kept ∨ y = .error (kind.mapCulprit (Term.bind σ)) := by
  subst hx
  rcases h with ⟨kind', hkind, hopen⟩ | rfl
  · cases hkind
    exact .inl hopen
  · exact .inr rfl

/-- When every variable is kept, nothing is left open. -/
theorem eq_of_kept {x : Except ErrorKind α} {y : Except ErrorKind β}
    (h : Carries E σ (fun _ => True) g x y) :
    y = (x.map g).mapError (ErrorKind.mapCulprit (Term.bind σ)) := by
  rcases h with ⟨kind, -, v, -, -, hk⟩ | h
  · exact absurd trivial hk
  · exact h

end Carries

end Signet
