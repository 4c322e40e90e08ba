import Signet.Codec

/-! # Options that name something

An option names a member of a table: its value must resolve to an atom, and the atom must be the
name of a member. The algorithm of a request and the encoding of its data are both read this
way. Reading an option asks nothing of the provider. -/
namespace Signet

theorem find?_name_iff {α : Type} {name : α → String} (inj : ∀ a b, name a = name b → a = b)
    {xs : List α} {s : String} {a : α} :
    xs.find? (name · == s) = some a ↔ a ∈ xs ∧ name a = s := by
  constructor
  · intro h
    exact ⟨List.mem_of_find?_eq_some h, by simpa using List.find?_some h⟩
  · rintro ⟨hmem, rfl⟩
    cases h : xs.find? (name · == name a) with
    | none => simpa using List.find?_eq_none.mp h a hmem
    | some b =>
      have hb : name b = name a := by simpa using List.find?_some h
      rw [inj b a hb]

theorem Env.atomName_ok_iff {E : Env} {t : Term} {name : String} :
    E.atomName t = .ok name ↔ E.resolve t = .atom name := by
  unfold Env.atomName
  split
  · rename_i h
    simp [h]
  · rename_i hne
    simpa using fun h => hne name h

namespace Options

/-- The value of option `key`, or `default` when no entry gives one, resolves to the atom
`name`. -/
def Names (key : String) (options default : Term) (E : Env) (name : String) : Prop :=
  ∃ value, (get key options default E).result = .ok value ∧ E.resolve value = .atom name

theorem calls_get (key : String) (options default : Term) (E : Env) :
    (get key options default E).calls = [] := by
  unfold get
  dsimp only
  split <;> rfl

theorem names_default (key : String) (E : Env) (name : String) :
    Names key .nil (.atom name) E name := by
  refine ⟨.atom name, ?_, E.resolve_atom name⟩
  unfold get
  rw [E.items_nil]
  rfl

variable {key : String} {options default : Term} {E : Env} {α : Type}
  {member : String → Except ErrorKind α}

theorem calls_named : (named key options default E member).calls = [] :=
  Traced.calls_bind (calls_get ..) fun _ => Traced.calls_bind rfl fun _ => rfl

theorem named_ok_iff {a : α} :
    (named key options default E member).result = .ok a ↔
      ∃ name, Names key options default E name ∧ member name = .ok a := by
  unfold named Names
  cases hget : (get key options default E).result with
  | error e => simp [Traced.result_bind_error hget]
  | ok value =>
    rw [Traced.result_bind_ok hget]
    cases hname : E.atomName value with
    | error e =>
      have hne : ∀ name, E.resolve value ≠ .atom name := by
        intro name h
        rw [Env.atomName_ok_iff.mpr h] at hname
        cases hname
      simp [hne]
    | ok name =>
      have hres := Env.atomName_ok_iff.mp hname
      simp [hres]

end Options

namespace Encoding

theorem name_inj (a b : Encoding) (h : a.name = b.name) : a = b := by
  cases a <;> cases b <;> simp_all [name]

theorem ofName_ok_iff {s : String} {encoding : Encoding} :
    ofName s = .ok encoding ↔ encoding.name = s := by
  unfold ofName
  have hall : encoding ∈ all := by cases encoding <;> simp [all]
  cases h : all.find? (·.name == s) with
  | none =>
    have hne : encoding.name ≠ s := by simpa using List.find?_eq_none.mp h encoding hall
    simpa using hne
  | some other =>
    have hother := ((find?_name_iff name_inj).mp h).2
    simp only [Except.ok.injEq]
    constructor
    · rintro rfl
      exact hother
    · intro he
      exact name_inj other encoding (hother.trans he.symm)

theorem calls_ofOptions (options : Term) (E : Env) : (ofOptions options E).calls = [] :=
  Options.calls_named

theorem ofOptions_ok_iff {options : Term} {E : Env} {encoding : Encoding} :
    (ofOptions options E).result = .ok encoding ↔
      Options.Names "encoding" options (.atom hex.name) E encoding.name := by
  unfold ofOptions
  rw [Options.named_ok_iff]
  simp only [ofName_ok_iff, exists_eq_right']

end Encoding

end Signet
