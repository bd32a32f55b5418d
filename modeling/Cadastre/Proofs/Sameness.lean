/-
# Sameness of functions

Whether one function can stand for another is decided by comparing what they are made
of: callables by instance or by body, templates, signatures and defaults by their
values, and values by what they are worth, so that `0.0` is `-0.0` and no NaN is the
same as itself. All these comparisons are symmetric and transitive, and without NaN
also reflexive; so compatible functions form classes
(`BoundFunction.isCompatibleWith_symm`, `BoundFunction.isCompatibleWith_trans`,
`BoundFunction.isCompatibleWith_self`).

Two callables are one instance or have equal bodies. That this is transitive takes
what an instance promises: it has one body (`BoundFunction.Identified`).

Key definitions: `Expr.NoNaN`, `Signature.NoNaN`, `BoundFunction.NoNaN`,
`BoundFunction.Identified`.
Key theorems: `compare_eq_some_eq_iff`, `Json.same_symm`, `Json.same_trans`,
`Expr.same_symm`, `Expr.same_trans`, `BoundFunction.isCompatibleWith_self`,
`BoundFunction.isCompatibleWith_symm`, `BoundFunction.isCompatibleWith_trans`,
`BoundFunction.isCompatibleWith_congr`.
-/
import Cadastre.BoundFunction
import Mathlib.Data.List.Forall2

namespace Cadastre

/-! ### Floats -/

section Floats

open Float.Model (UnpackedFloat)

theorem compare_sign_eq_iff {s t : UnpackedFloat.Sign} : compare s t = .eq ↔ s = t := by
  cases s <;> cases t <;> simp [compare]

theorem compare_magnitude_eq_iff {m n : Nat} {d e : Int} :
    (compare d e).then (compare m n) = .eq ↔ d = e ∧ m = n := by
  rw [Ordering.then_eq_eq, Std.compare_eq_iff_eq, Std.compare_eq_iff_eq]

/-- Floats compare as equal if they are the same number, or both are zero. -/
theorem compare_eq_some_eq_iff {a b : UnpackedFloat} : a.compare b = some .eq ↔
    (a ≠ .notANumber ∧ a = b) ∨ ∃ s t, a = .zero s ∧ b = .zero t := by
  constructor
  · intro h
    cases a with
    | notANumber => cases h
    | infinity s =>
      cases b with
      | infinity t =>
        obtain rfl := compare_sign_eq_iff.1 (Option.some.inj h)
        exact .inl ⟨nofun, rfl⟩
      | _ => cases s <;> cases h
    | zero s =>
      cases b with
      | zero t => exact .inr ⟨s, t, rfl, rfl⟩
      | notANumber => cases h
      | infinity t => cases t <;> cases h
      | finite t _ _ _ => cases t <;> cases h
    | finite s m d hm =>
      cases b with
      | finite t n e hn =>
        obtain ⟨rfl, rfl, rfl⟩ : s = t ∧ d = e ∧ m = n := by
          cases s with
          | positive =>
            cases t with
            | positive => exact ⟨rfl, compare_magnitude_eq_iff.1 (Option.some.inj h)⟩
            | negative => cases h
          | negative =>
            cases t with
            | positive => cases h
            | negative =>
              have hswap := Ordering.swap_eq_eq.1 (Option.some.inj h)
              exact ⟨rfl, compare_magnitude_eq_iff.1 hswap⟩
        exact .inl ⟨nofun, rfl⟩
      | infinity t => cases s <;> cases t <;> cases h
      | _ => cases s <;> cases h
  · rintro (⟨hnumber, rfl⟩ | ⟨s, t, rfl, rfl⟩)
    · cases a with
      | notANumber => exact absurd rfl hnumber
      | infinity s => exact congrArg some (compare_sign_eq_iff.2 rfl)
      | zero s => rfl
      | finite s m d hm =>
        have heq := compare_magnitude_eq_iff.2 ⟨Eq.refl d, Eq.refl m⟩
        cases s with
        | positive => exact congrArg some heq
        | negative => exact congrArg some (congrArg Ordering.swap heq)
    · rfl

theorem float_beq_iff {x y : Float} :
    (x == y) = true ↔ x.toModel.unpack.compare y.toModel.unpack = some .eq := by
  show (x.toModel.unpack.compare y.toModel.unpack == some .eq) = true ↔ _
  exact beq_iff_eq

theorem float_beq_symm {x y : Float} (h : (x == y) = true) : (y == x) = true := by
  rw [float_beq_iff, compare_eq_some_eq_iff] at h ⊢
  rcases h with ⟨hnan, heq⟩ | ⟨s, t, hx, hy⟩
  · exact .inl ⟨heq ▸ hnan, heq.symm⟩
  · exact .inr ⟨t, s, hy, hx⟩

theorem float_beq_trans {x y z : Float} (h : (x == y) = true) (h' : (y == z) = true) :
    (x == z) = true := by
  rw [float_beq_iff, compare_eq_some_eq_iff] at h h' ⊢
  rcases h with ⟨hnan, heq⟩ | ⟨s, t, hx, hy⟩
  · rw [heq] at hnan ⊢
    exact h'
  · rcases h' with ⟨_, heq⟩ | ⟨_, u, _, hz⟩
    · exact .inr ⟨s, t, hx, heq ▸ hy⟩
    · exact .inr ⟨s, u, hx, hz⟩

end Floats

/-! ### Lists -/

section Lists

variable {α : Type} {same : α → α → Bool} {as bs cs : List α}

theorem allSame_self (h : ∀ a ∈ as, same a a = true) : allSame same as as = true := by
  induction as with
  | nil => rfl
  | cons a as ih =>
    obtain ⟨ha, has⟩ := List.forall_mem_cons.1 h
    rw [allSame, ha, ih has]
    rfl

theorem allSame_iff_forall₂ :
    allSame same as bs = true ↔ List.Forall₂ (fun a b => same a b = true) as bs := by
  induction as generalizing bs with
  | nil => cases bs <;> simp [allSame]
  | cons a as ih => cases bs <;> simp [allSame, ih]

theorem allSame_singleton_iff {b : α} :
    allSame same as [b] = true ↔ ∃ a, as = [a] ∧ same a b = true := by
  rcases as with - | ⟨a, - | ⟨a', as⟩⟩ <;> simp [allSame]

theorem exists_getElem_of_allSame (h : allSame same as bs = true) {i : Nat} {b : α}
    (hb : bs[i]? = some b) : ∃ a, as[i]? = some a ∧ same a b = true := by
  rw [allSame_iff_forall₂] at h
  induction h generalizing i with
  | nil => cases hb
  | @cons a _ _ _ hab _ ih =>
    cases i with
    | zero =>
      cases hb
      exact ⟨a, rfl, hab⟩
    | succ i => exact ih hb

theorem allSame_symm (h : allSame same as bs = true)
    (hsame : ∀ {a b}, same a b = true → same b a = true) : allSame same bs as = true := by
  rw [allSame_iff_forall₂] at h ⊢
  exact (h.imp fun _ _ hab => hsame hab).flip

theorem allSame_trans (h : allSame same as bs = true) (h' : allSame same bs cs = true)
    (hsame : ∀ a ∈ as, ∀ b ∈ bs, ∀ c ∈ cs, same a b = true → same b c = true → same a c = true) :
    allSame same as cs = true := by
  induction as generalizing bs cs with
  | nil =>
    cases bs with
    | nil => exact h'
    | cons b bs => cases h
  | cons a as ih =>
    cases bs with
    | nil => cases h
    | cons b bs =>
      cases cs with
      | nil => cases h'
      | cons c cs =>
        obtain ⟨hab, has⟩ := Bool.and_eq_true_iff.1 h
        obtain ⟨hbc, hbs⟩ := Bool.and_eq_true_iff.1 h'
        have hac := hsame a List.mem_cons_self b List.mem_cons_self c List.mem_cons_self hab hbc
        have hrest := ih has hbs fun a ha b hb c hc => hsame a (List.mem_cons_of_mem _ ha) b
          (List.mem_cons_of_mem _ hb) c (List.mem_cons_of_mem _ hc)
        rw [allSame, hac, hrest]
        rfl

end Lists

/-! ### JSON and values -/

namespace Json

mutual

theorem same_symm : ∀ {a b : Json}, same a b = true → same b a = true
  | null, b, h => by
    cases b with
    | null => rfl
    | _ => cases h
  | bool x, b, h => by
    cases b with
    | bool y => exact beq_iff_eq.2 (beq_iff_eq.1 h).symm
    | _ => cases h
  | int x, b, h => by
    cases b with
    | int y => exact beq_iff_eq.2 (beq_iff_eq.1 h).symm
    | _ => cases h
  | float x, b, h => by
    cases b with
    | float y => exact float_beq_symm h
    | _ => cases h
  | str x, b, h => by
    cases b with
    | str y => exact beq_iff_eq.2 (beq_iff_eq.1 h).symm
    | _ => cases h
  | arr as, b, h => by
    cases b with
    | arr bs => exact sameItems_symm h
    | _ => cases h
  | obj as, b, h => by
    cases b with
    | obj bs => exact sameMembers_symm h
    | _ => cases h

theorem sameItems_symm : ∀ {as bs : List Json}, sameItems as bs = true → sameItems bs as = true
  | [], bs, h => by
    cases bs with
    | nil => rfl
    | cons b bs => cases h
  | a :: as, bs, h => by
    cases bs with
    | nil => cases h
    | cons b bs =>
      obtain ⟨ha, has⟩ := Bool.and_eq_true_iff.1 h
      rw [sameItems, same_symm ha, sameItems_symm has]
      rfl

theorem sameMembers_symm : ∀ {as bs : List (String × Json)}, sameMembers as bs = true →
    sameMembers bs as = true
  | [], bs, h => by
    cases bs with
    | nil => rfl
    | cons b bs => cases h
  | (k, a) :: as, bs, h => by
    cases bs with
    | nil => cases h
    | cons b bs =>
      obtain ⟨l, b⟩ := b
      obtain ⟨hka, has⟩ := Bool.and_eq_true_iff.1 h
      obtain ⟨hk, ha⟩ := Bool.and_eq_true_iff.1 hka
      rw [sameMembers, beq_iff_eq.2 (beq_iff_eq.1 hk).symm, same_symm ha, sameMembers_symm has]
      rfl

end

mutual

theorem same_trans : ∀ {a b c : Json}, same a b = true → same b c = true → same a c = true
  | null, b, c, h, h' => by
    cases b with
    | null => exact h'
    | _ => cases h
  | bool x, b, c, h, h' => by
    cases b with
    | bool y =>
      obtain rfl := beq_iff_eq.1 h
      exact h'
    | _ => cases h
  | int x, b, c, h, h' => by
    cases b with
    | int y =>
      obtain rfl := beq_iff_eq.1 h
      exact h'
    | _ => cases h
  | float x, b, c, h, h' => by
    cases b with
    | float y =>
      cases c with
      | float z => exact float_beq_trans h h'
      | _ => cases h'
    | _ => cases h
  | str x, b, c, h, h' => by
    cases b with
    | str y =>
      obtain rfl := beq_iff_eq.1 h
      exact h'
    | _ => cases h
  | arr as, b, c, h, h' => by
    cases b with
    | arr bs =>
      cases c with
      | arr cs => exact sameItems_trans h h'
      | _ => cases h'
    | _ => cases h
  | obj as, b, c, h, h' => by
    cases b with
    | obj bs =>
      cases c with
      | obj cs => exact sameMembers_trans h h'
      | _ => cases h'
    | _ => cases h

theorem sameItems_trans : ∀ {as bs cs : List Json}, sameItems as bs = true →
    sameItems bs cs = true → sameItems as cs = true
  | [], bs, cs, h, h' => by
    cases bs with
    | nil => exact h'
    | cons b bs => cases h
  | a :: as, bs, cs, h, h' => by
    cases bs with
    | nil => cases h
    | cons b bs =>
      cases cs with
      | nil => cases h'
      | cons c cs =>
        obtain ⟨hab, has⟩ := Bool.and_eq_true_iff.1 h
        obtain ⟨hbc, hbs⟩ := Bool.and_eq_true_iff.1 h'
        rw [sameItems, same_trans hab hbc, sameItems_trans has hbs]
        rfl

theorem sameMembers_trans : ∀ {as bs cs : List (String × Json)}, sameMembers as bs = true →
    sameMembers bs cs = true → sameMembers as cs = true
  | [], bs, cs, h, h' => by
    cases bs with
    | nil => exact h'
    | cons b bs => cases h
  | (k, a) :: as, bs, cs, h, h' => by
    cases bs with
    | nil => cases h
    | cons b bs =>
      obtain ⟨l, b⟩ := b
      cases cs with
      | nil => cases h'
      | cons c cs =>
        obtain ⟨m, c⟩ := c
        obtain ⟨hkab, has⟩ := Bool.and_eq_true_iff.1 h
        obtain ⟨hkl, hab⟩ := Bool.and_eq_true_iff.1 hkab
        obtain ⟨hlbc, hbs⟩ := Bool.and_eq_true_iff.1 h'
        obtain ⟨hlm, hbc⟩ := Bool.and_eq_true_iff.1 hlbc
        rw [sameMembers, beq_iff_eq.2 ((beq_iff_eq.1 hkl).trans (beq_iff_eq.1 hlm)),
          same_trans hab hbc, sameMembers_trans has hbs]
        rfl

end

end Json

/-- Values of the type that compare as equal are the same: it is neither that of
floats nor free-form JSON. -/
def ColumnType.isExact (t : ColumnType) : Bool := t.tag != .float && t.tag != .dict

theorem Value.Conforms.isExact {v : Value} {t : ColumnType} (h : v.Conforms t)
    (ht : t.isExact = true) : v.type.isExact = true := by
  rcases h with hnone | hrefines
  · cases v with
    | none => rfl
    | _ => cases hnone
  · rw [ColumnType.isExact, hrefines.tag_eq]
    exact ht

theorem Value.eq_of_same {v w : Value} (h : v.same w = true)
    (hexact : v.type.isExact = true ∨ w.type.isExact = true) : v = w := by
  cases v <;> cases w <;>
    simp_all [Value.same, Value.type, ColumnType.isExact, ColumnType.tag]

namespace Value

variable {u v w : Value}

theorem same_symm (h : v.same w = true) : w.same v = true := by
  cases v with
  | float x =>
    cases w with
    | float y => exact float_beq_symm h
    | _ => cases h
  | dict x =>
    cases w with
    | dict y => exact Json.same_symm h
    | _ => cases h
  | _ =>
    obtain rfl := eq_of_same h (.inl rfl)
    exact h

theorem same_trans (h : u.same v = true) (h' : v.same w = true) : u.same w = true := by
  cases u with
  | float x =>
    cases v with
    | float y =>
      cases w with
      | float z => exact float_beq_trans h h'
      | _ => cases h'
    | _ => cases h
  | dict x =>
    cases v with
    | dict y =>
      cases w with
      | dict z => exact Json.same_trans h h'
      | _ => cases h'
    | _ => cases h
  | _ =>
    obtain rfl := eq_of_same h (.inl rfl)
    exact h'

end Value

/-! ### Expressions -/

namespace Expr

mutual

/-- Every float in a literal of the expression is a number. -/
def NoNaN : Expr → Prop
  | literal v => v.NoNaN
  | call _ _ args _ => NoNaNArgs args
  | _ => True

def NoNaNArgs : List Expr → Prop
  | [] => True
  | a :: as => NoNaN a ∧ NoNaNArgs as

end

mutual

theorem same_self : ∀ {e : Expr}, e.NoNaN → e.same e = true
  | column name t, _ => by simp [same]
  | var name t, _ => by simp [same]
  | literal v, h => Value.same_self h
  | call f i args t, h => by simp [same, sameArgs_self (show NoNaNArgs args from h)]

theorem sameArgs_self : ∀ {as : List Expr}, NoNaNArgs as → sameArgs as as = true
  | [], _ => rfl
  | a :: as, h => by rw [sameArgs, same_self h.1, sameArgs_self h.2]; rfl

end

mutual

theorem same_symm : ∀ {a b : Expr}, a.same b = true → b.same a = true
  | column x t, b, h => by
    cases b with
    | column y u =>
      simp only [same, Bool.and_eq_true, beq_iff_eq] at h ⊢
      exact ⟨h.1.symm, h.2.symm⟩
    | _ => cases h
  | var x t, b, h => by
    cases b with
    | var y u =>
      simp only [same, Bool.and_eq_true, beq_iff_eq] at h ⊢
      exact ⟨h.1.symm, h.2.symm⟩
    | _ => cases h
  | literal v, b, h => by
    cases b with
    | literal w => exact Value.same_symm h
    | _ => cases h
  | call f i as t, b, h => by
    cases b with
    | call g j bs u =>
      simp only [same, Bool.and_eq_true, beq_iff_eq] at h ⊢
      obtain ⟨⟨⟨rfl, rfl⟩, hargs⟩, rfl⟩ := h
      exact ⟨⟨⟨rfl, rfl⟩, sameArgs_symm hargs⟩, rfl⟩
    | _ => cases h

theorem sameArgs_symm : ∀ {as bs : List Expr}, sameArgs as bs = true → sameArgs bs as = true
  | [], bs, h => by
    cases bs with
    | nil => rfl
    | cons b bs => cases h
  | a :: as, bs, h => by
    cases bs with
    | nil => cases h
    | cons b bs =>
      obtain ⟨ha, has⟩ := Bool.and_eq_true_iff.1 h
      rw [sameArgs, same_symm ha, sameArgs_symm has]
      rfl

end

mutual

theorem same_trans : ∀ {a b c : Expr}, a.same b = true → b.same c = true → a.same c = true
  | column x t, b, c, h, h' => by
    cases b with
    | column y u =>
      simp only [same, Bool.and_eq_true, beq_iff_eq] at h
      obtain ⟨rfl, rfl⟩ := h
      exact h'
    | _ => cases h
  | var x t, b, c, h, h' => by
    cases b with
    | var y u =>
      simp only [same, Bool.and_eq_true, beq_iff_eq] at h
      obtain ⟨rfl, rfl⟩ := h
      exact h'
    | _ => cases h
  | literal v, b, c, h, h' => by
    cases b with
    | literal w =>
      cases c with
      | literal u => exact Value.same_trans h h'
      | _ => cases h'
    | _ => cases h
  | call f i as t, b, c, h, h' => by
    cases b with
    | call g j bs u =>
      cases c with
      | call k l cs v =>
        simp only [same, Bool.and_eq_true, beq_iff_eq] at h h' ⊢
        obtain ⟨⟨⟨rfl, rfl⟩, hargs⟩, rfl⟩ := h
        obtain ⟨⟨⟨rfl, rfl⟩, hargs'⟩, rfl⟩ := h'
        exact ⟨⟨⟨rfl, rfl⟩, sameArgs_trans hargs hargs'⟩, rfl⟩
      | _ => cases h'
    | _ => cases h

theorem sameArgs_trans : ∀ {as bs cs : List Expr}, sameArgs as bs = true →
    sameArgs bs cs = true → sameArgs as cs = true
  | [], bs, cs, h, h' => by
    cases bs with
    | nil => exact h'
    | cons b bs => cases h
  | a :: as, bs, cs, h, h' => by
    cases bs with
    | nil => cases h
    | cons b bs =>
      cases cs with
      | nil => cases h'
      | cons c cs =>
        obtain ⟨hab, has⟩ := Bool.and_eq_true_iff.1 h
        obtain ⟨hbc, hbs⟩ := Bool.and_eq_true_iff.1 h'
        rw [sameArgs, same_trans hab hbc, sameArgs_trans has hbs]
        rfl

end

end Expr

/-! ### Parameters and signatures -/

namespace Parameter

variable {p q r : Parameter}

/-- Every float in the default is a number. -/
def NoNaN (p : Parameter) : Prop := ∀ v, p.default = some v → v.NoNaN

/-- Equality of defaults, which may be missing. -/
theorem same_iff : p.same q = true ↔ p.name = q.name ∧ p.type = q.type ∧ p.batched = q.batched ∧
    ((p.default = none ∧ q.default = none) ∨
      ∃ v w, p.default = some v ∧ q.default = some w ∧ v.same w = true) := by
  unfold same
  cases p.default <;> cases q.default <;> simp [and_assoc]

theorem same_self (h : p.NoNaN) : p.same p = true := by
  refine same_iff.2 ⟨rfl, rfl, rfl, ?_⟩
  cases hdefault : p.default with
  | none => exact .inl ⟨rfl, rfl⟩
  | some v => exact .inr ⟨v, v, rfl, rfl, Value.same_self (h v hdefault)⟩

theorem same_symm (h : p.same q = true) : q.same p = true := by
  obtain ⟨hname, htype, hbatched, hdefault⟩ := same_iff.1 h
  refine same_iff.2 ⟨hname.symm, htype.symm, hbatched.symm, ?_⟩
  rcases hdefault with ⟨hp, hq⟩ | ⟨v, w, hv, hw, hsame⟩
  · exact .inl ⟨hq, hp⟩
  · exact .inr ⟨w, v, hw, hv, Value.same_symm hsame⟩

theorem same_trans (h : p.same q = true) (h' : q.same r = true) : p.same r = true := by
  obtain ⟨hname, htype, hbatched, hdefault⟩ := same_iff.1 h
  obtain ⟨hname', htype', hbatched', hdefault'⟩ := same_iff.1 h'
  refine same_iff.2 ⟨hname.trans hname', htype.trans htype', hbatched.trans hbatched', ?_⟩
  rcases hdefault with ⟨hp, hq⟩ | ⟨u, v, hu, hv, huv⟩
  · rcases hdefault' with ⟨_, hr⟩ | ⟨v, _, hv, _⟩
    · exact .inl ⟨hp, hr⟩
    · rw [hq] at hv
      cases hv
  · rcases hdefault' with ⟨hq, _⟩ | ⟨v', w, hv', hw, hvw⟩
    · rw [hq] at hv
      cases hv
    · rw [hv] at hv'
      cases hv'
      exact .inr ⟨u, w, hu, hw, Value.same_trans huv hvw⟩

end Parameter

namespace Signature

variable {s t u : Signature}

/-- Every float in a default of the signature is a number. -/
def NoNaN (s : Signature) : Prop := ∀ p ∈ s.parameters, p.NoNaN

theorem same_iff : s.same t = true ↔ allSame Parameter.same s.parameters t.parameters = true ∧
    s.returnType = t.returnType ∧ s.batched = t.batched := by
  simp [same, and_assoc]

theorem same_self (h : s.NoNaN) : s.same s = true :=
  same_iff.2 ⟨allSame_self fun p hp => Parameter.same_self (h p hp), rfl, rfl⟩

theorem same_symm (h : s.same t = true) : t.same s = true := by
  obtain ⟨hparameters, hreturn, hbatched⟩ := same_iff.1 h
  exact same_iff.2 ⟨allSame_symm hparameters Parameter.same_symm, hreturn.symm, hbatched.symm⟩

theorem same_trans (h : s.same t = true) (h' : t.same u = true) : s.same u = true := by
  obtain ⟨hparameters, hreturn, hbatched⟩ := same_iff.1 h
  obtain ⟨hparameters', hreturn', hbatched'⟩ := same_iff.1 h'
  have htrans := allSame_trans hparameters hparameters' fun _ _ _ _ _ _ => Parameter.same_trans
  exact same_iff.2 ⟨htrans, hreturn.trans hreturn', hbatched.trans hbatched'⟩

end Signature

/-! ### Bodies -/

namespace ExprTemplate

variable {s t u : ExprTemplate}

/-- Every float in a default or a literal of the template is a number. -/
def NoNaN (t : ExprTemplate) : Prop := t.signature.NoNaN ∧ t.body.NoNaN

theorem same_self (h : t.NoNaN) : t.same t = true :=
  Bool.and_eq_true_iff.2 ⟨Signature.same_self h.1, Expr.same_self h.2⟩

theorem same_symm (h : s.same t = true) : t.same s = true := by
  obtain ⟨hsignature, hbody⟩ := Bool.and_eq_true_iff.1 h
  exact Bool.and_eq_true_iff.2 ⟨Signature.same_symm hsignature, Expr.same_symm hbody⟩

theorem same_trans (h : s.same t = true) (h' : t.same u = true) : s.same u = true := by
  obtain ⟨hsignature, hbody⟩ := Bool.and_eq_true_iff.1 h
  obtain ⟨hsignature', hbody'⟩ := Bool.and_eq_true_iff.1 h'
  exact Bool.and_eq_true_iff.2
    ⟨Signature.same_trans hsignature hsignature', Expr.same_trans hbody hbody'⟩

end ExprTemplate

namespace Callable

variable {a b c : Callable}

theorem sameBody_iff : a.sameBody b = true ↔
    a.instanceId = b.instanceId ∨ ∃ bytes, a.body = some bytes ∧ b.body = some bytes := by
  unfold sameBody
  rw [Bool.or_eq_true, beq_iff_eq]
  refine or_congr_right ?_
  cases a.body with
  | none => simp
  | some x =>
    cases b.body with
    | none => simp
    | some y => simpa using eq_comm

theorem sameBody_self (c : Callable) : c.sameBody c = true := sameBody_iff.2 (.inl rfl)

theorem sameBody_symm (h : a.sameBody b = true) : b.sameBody a = true := by
  rcases sameBody_iff.1 h with hid | ⟨bytes, ha, hb⟩
  · exact sameBody_iff.2 (.inl hid.symm)
  · exact sameBody_iff.2 (.inr ⟨bytes, hb, ha⟩)

/-- An instance has one body. -/
theorem sameBody_trans (hab : a.instanceId = b.instanceId → a.body = b.body)
    (hbc : b.instanceId = c.instanceId → b.body = c.body)
    (h : a.sameBody b = true) (h' : b.sameBody c = true) : a.sameBody c = true := by
  rcases sameBody_iff.1 h with hid | ⟨bytes, ha, hb⟩
  · rcases sameBody_iff.1 h' with hid' | ⟨bytes, hb, hc⟩
    · exact sameBody_iff.2 (.inl (hid.trans hid'))
    · exact sameBody_iff.2 (.inr ⟨bytes, (hab hid).trans hb, hc⟩)
  · rcases sameBody_iff.1 h' with hid' | ⟨bytes', hb', hc⟩
    · exact sameBody_iff.2 (.inr ⟨bytes, ha, (hbc hid').symm.trans hb⟩)
    · rw [hb] at hb'
      cases hb'
      exact sameBody_iff.2 (.inr ⟨bytes, ha, hc⟩)

end Callable

/-! ### Functions -/

namespace BoundFunction

variable {f g h : BoundFunction}

/-- Every float in a default or a literal of the function is a number. -/
structure NoNaN (f : BoundFunction) : Prop where
  signatures : ∀ s ∈ f.signatures, s.NoNaN
  templates : ∀ ts, f.implementation = .templates ts → ∀ t ∈ ts, t.NoNaN

/-- The callables of a function; a template function has none. -/
def callables (f : BoundFunction) : List Callable :=
  match f.implementation with
  | .callables cs => cs
  | .templates _ => []

/-- Callables of the two functions that are one instance have one body. -/
def Identified (f g : BoundFunction) : Prop := ∀ c ∈ f.callables, ∀ d ∈ g.callables,
  c.instanceId = d.instanceId → c.body = d.body

theorem isCompatibleWith_iff : f.isCompatibleWith g = true ↔
    sameImplementation f.implementation g.implementation = true ∧
      allSame Signature.same f.signatures g.signatures = true ∧ f.batchSize = g.batchSize ∧
        f.isMethod = g.isMethod ∧ f.isProperty = g.isProperty := by
  simp [isCompatibleWith, and_assoc]

/-- A function is compatible with itself. -/
theorem isCompatibleWith_self (hf : f.NoNaN) : f.isCompatibleWith f = true := by
  have himplementation : sameImplementation f.implementation f.implementation = true := by
    cases h : f.implementation with
    | callables cs => exact allSame_self fun c _ => c.sameBody_self
    | templates ts => exact allSame_self fun t ht => ExprTemplate.same_self (hf.templates ts h t ht)
  have hsignatures : allSame Signature.same f.signatures f.signatures = true :=
    allSame_self fun s hs => Signature.same_self (hf.signatures s hs)
  exact isCompatibleWith_iff.2 ⟨himplementation, hsignatures, rfl, rfl, rfl⟩

theorem isCompatibleWith_symm (hfg : f.isCompatibleWith g = true) :
    g.isCompatibleWith f = true := by
  obtain ⟨himplementation, hsignatures, hbatch, hmethod, hproperty⟩ := isCompatibleWith_iff.1 hfg
  have hsame : sameImplementation g.implementation f.implementation = true := by
    cases hf : f.implementation with
    | callables cs =>
      rw [hf] at himplementation
      cases hg : g.implementation with
      | callables ds =>
        rw [hg] at himplementation
        exact allSame_symm himplementation Callable.sameBody_symm
      | templates ts =>
        rw [hg] at himplementation
        cases himplementation
    | templates ts =>
      rw [hf] at himplementation
      cases hg : g.implementation with
      | callables ds =>
        rw [hg] at himplementation
        cases himplementation
      | templates us =>
        rw [hg] at himplementation
        exact allSame_symm himplementation ExprTemplate.same_symm
  exact isCompatibleWith_iff.2
    ⟨hsame, allSame_symm hsignatures Signature.same_symm, hbatch.symm, hmethod.symm,
      hproperty.symm⟩

theorem sameImplementation_trans (hfg : f.Identified g) (hgh : g.Identified h)
    (h₁ : sameImplementation f.implementation g.implementation = true)
    (h₂ : sameImplementation g.implementation h.implementation = true) :
    sameImplementation f.implementation h.implementation = true := by
  unfold Identified callables at hfg hgh
  cases hf : f.implementation with
  | callables cs =>
    cases hg : g.implementation with
    | callables ds =>
      cases hh : h.implementation with
      | callables es =>
        rw [hf, hg] at hfg h₁
        rw [hg, hh] at hgh h₂
        exact allSame_trans h₁ h₂ fun c hc d hd e he =>
          Callable.sameBody_trans (hfg c hc d hd) (hgh d hd e he)
      | templates us =>
        rw [hg, hh] at h₂
        cases h₂
    | templates us =>
      rw [hf, hg] at h₁
      cases h₁
  | templates ts =>
    cases hg : g.implementation with
    | callables ds =>
      rw [hf, hg] at h₁
      cases h₁
    | templates us =>
      cases hh : h.implementation with
      | callables es =>
        rw [hg, hh] at h₂
        cases h₂
      | templates vs =>
        rw [hf, hg] at h₁
        rw [hg, hh] at h₂
        exact allSame_trans h₁ h₂ fun _ _ _ _ _ _ => ExprTemplate.same_trans

theorem isCompatibleWith_trans (hfg : f.Identified g) (hgh : g.Identified h)
    (h₁ : f.isCompatibleWith g = true) (h₂ : g.isCompatibleWith h = true) :
    f.isCompatibleWith h = true := by
  obtain ⟨himplementation, hsignatures, hbatch, hmethod, hproperty⟩ := isCompatibleWith_iff.1 h₁
  obtain ⟨himplementation', hsignatures', hbatch', hmethod', hproperty'⟩ :=
    isCompatibleWith_iff.1 h₂
  have htrans := allSame_trans hsignatures hsignatures' fun _ _ _ _ _ _ => Signature.same_trans
  exact isCompatibleWith_iff.2
    ⟨sameImplementation_trans hfg hgh himplementation himplementation', htrans,
      hbatch.trans hbatch', hmethod.trans hmethod', hproperty.trans hproperty'⟩

theorem Identified.symm (hfg : f.Identified g) : g.Identified f :=
  fun d hd c hc hid => (hfg c hc d hd hid.symm).symm

/-- What a function is compatible with, the functions compatible with it are, too. -/
theorem isCompatibleWith_congr (hfg : f.Identified g) (hfh : f.Identified h)
    (hgh : g.Identified h) (hcompatible : f.isCompatibleWith g = true) :
    f.isCompatibleWith h = g.isCompatibleWith h := by
  rw [Bool.eq_iff_iff]
  exact ⟨isCompatibleWith_trans hfg.symm hfh (isCompatibleWith_symm hcompatible),
    isCompatibleWith_trans hfg hgh hcompatible⟩

end BoundFunction
end Cadastre
