/-
# Calls that are built pass the check

Two places decide whether a call is well typed. Where it is built, the overload is
chosen by the types of the arguments, and the call states the overload's return type;
where a column is checked, the function is looked up again, under its path or in its
record, and the overload's return type must convert to the one that the call states.
The function is found with the signatures that it was built with
(`Catalog.Knows.signature`), so what is built of arguments that pass the check passes
it too if the return type converts to itself, and does not otherwise
(`Catalog.checkExpr_of_callExpr`).

A return type that fixes one dimension of an image does not convert to itself: a call
of such a function is built, and refused in every column
(`Sample.refused_thumbnail`). A reference to a column of such a type passes, for
there the type that is stated need only be the column's.

Key definitions: `Catalog.Knows`.
Key theorems: `Signature.accepts_eq_of_same`, `Catalog.Knows.signature`,
`Catalog.checkExpr_of_callExpr`.
-/
import Cadastre.Proofs.AcceptedCalls
import Cadastre.Proofs.Sameness

namespace Cadastre

/-! ### Signatures that are the same accept the same -/

namespace Signature

variable {s t : Signature} {args : List ColumnType}

theorem hasDefault_eq_of_same {p q : Parameter} (h : p.same q = true) :
    p.hasDefault = q.hasDefault := by
  obtain ⟨_, _, _, hdefault⟩ := Parameter.same_iff.1 h
  unfold Parameter.hasDefault
  rcases hdefault with ⟨hp, hq⟩ | ⟨v, w, hp, hq, _⟩
  · rw [hp, hq]
  · rw [hp, hq]
    rfl

theorem required_eq_of_same (h : allSame Parameter.same s.parameters t.parameters = true) :
    s.required = t.required := by
  rw [allSame_iff_forall₂] at h
  unfold required
  generalize s.parameters = ps at h
  generalize t.parameters = qs at h
  induction h with
  | nil => rfl
  | cons hpq _ ih =>
    rw [List.filter_cons, List.filter_cons, hasDefault_eq_of_same hpq]
    split <;> simp [ih]

theorem acceptsFrom_eq_of_same {ps qs : List Parameter}
    (h : allSame Parameter.same ps qs = true) : acceptsFrom? args ps = acceptsFrom? args qs := by
  rw [allSame_iff_forall₂] at h
  induction h generalizing args with
  | nil => rfl
  | @cons p q ps qs hpq _ ih =>
    cases args with
    | nil =>
      have hnil : acceptsFrom? [] ps = acceptsFrom? [] qs := ih
      rw [acceptsFrom?, acceptsFrom?] at hnil ⊢
      rw [List.all_cons, List.all_cons, hasDefault_eq_of_same hpq]
      cases q.hasDefault with
      | false => rfl
      | true => exact hnil
    | cons arg args =>
      have hargument : argument? arg p = argument? arg q := by
        unfold argument?
        rw [(Parameter.same_iff.1 hpq).2.1]
      rw [acceptsFrom?, acceptsFrom?, hargument, ih]

theorem accepts_eq_of_same (h : s.same t = true) : s.accepts? args = t.accepts? args := by
  have hparameters := (same_iff.1 h).1
  rw [accepts?, accepts?, required_eq_of_same hparameters, acceptsFrom_eq_of_same hparameters]

end Signature

/-! ### Building and checking -/

namespace Catalog

variable {c : Catalog} {f : BoundFunction}

/-- The catalog knows a function that is registered, or for which a compatible one is;
and one without path whose record is in the store as it was stored. -/
inductive Knows (c : Catalog) (f : BoundFunction) : Prop
  | registered {path : String} {g : BoundFunction} (hpath : f.path = some path)
      (hlookup : c.registry.lookup path = some g) (hsame : g = f ∨ g.isCompatibleWith f = true) :
      Knows c f
  | stored {c₀ : Catalog} {now : Float} {dir : Option DirId} {p : Plan Outcome}
      (hpath : f.path = none) (hfinite : f.isFinite = true)
      (hp : (Operation.storeFunction dir f).plan c₀ now = .ok p)
      (hrecord : ∀ w ∈ p.writes, c.store.get? w.1 = some w.2) : Knows c f

/-- A stored callable is found with its signatures. -/
theorem signaturesOf_stored {c₀ : Catalog} {now : Float} {dir : Option DirId} {p : Plan Outcome}
    (hf : f.Storable) (hp : (Operation.storeFunction dir f).plan c₀ now = .ok p)
    (hrecord : ∀ w ∈ p.writes, c.store.get? w.1 = some w.2) :
    c.signaturesOf (.id f.id) = .ok f.signatures := by
  obtain ⟨stored, r, hstored, hwrites, hcontent⟩ := writes_storeFunction hp
  obtain ⟨hsignatures, hfinite, hsound⟩ := hf.stored hstored
  have hget : c.store.get? (.function f.id) = some r :=
    hrecord (.function f.id, r) (by rw [hwrites]; exact List.mem_singleton_self _)
  have hdecode : (Payload.decode (.function f.id) r.content : Except Error FunctionInfo) =
      .ok ⟨dir.map fun _ => f.name, stored⟩ := by
    rw [hcontent]
    exact FunctionInfo.decode_toJson hfinite hsound
  unfold signaturesOf callSignatures Store.read?
  simp only [hget, hdecode, Except.map, hsignatures]

/-- A callable that the catalog knows is found with overloads that accept the same
arguments and return the same types. -/
theorem Knows.signature (h : c.Knows f) (hcallable : f.isTemplate = false) {i : Nat}
    {s : Signature} (hs : f.signatures[i]? = some s) : ∃ signatures t,
      c.signaturesOf f.ref = .ok signatures ∧ signatures[i]? = some t ∧
        (∀ args, t.accepts? args = s.accepts? args) ∧ t.returnType = s.returnType := by
  cases h with
  | @registered path g hpath hlookup hsame =>
    have hfound : c.signaturesOf f.ref = .ok g.signatures := by
      unfold BoundFunction.ref signaturesOf callSignatures Registry.resolve
      simp only [hpath, hlookup, Except.map]
    rcases hsame with rfl | hcompatible
    · exact ⟨_, s, hfound, hs, fun _ => rfl, rfl⟩
    · have hsignatures := (BoundFunction.isCompatibleWith_iff.1 hcompatible).2.1
      obtain ⟨t, ht, hts⟩ := exists_getElem_of_allSame hsignatures hs
      exact ⟨_, t, hfound, ht, fun _ => Signature.accepts_eq_of_same hts,
        (Signature.same_iff.1 hts).2.1⟩
  | stored hpath hfinite hp hrecord =>
    have hstorable : f.Storable := by
      refine ⟨hfinite, ?_, fun ts hts => ?_⟩
      · intro hnil
        rw [hnil] at hs
        cases hs
      · rw [BoundFunction.isTemplate, hts] at hcallable
        cases hcallable
    have hfound : c.signaturesOf f.ref = .ok f.signatures := by
      rw [BoundFunction.ref, hpath]
      exact signaturesOf_stored hstorable hp hrecord
    exact ⟨_, s, hfound, hs, fun _ => rfl, rfl⟩

/-- A call of an overload that accepts the arguments passes if its return type converts
to the one that is stated. -/
theorem checkCall_eq_ok_iff {ref : FunctionRef} {signatures : List Signature}
    (hfound : c.signaturesOf ref = .ok signatures) {i : Nat} {s : Signature}
    (hs : signatures[i]? = some s) {args : List ColumnType}
    (haccepts : (s.accepts? args).isSome = true) {t : ColumnType} :
    c.checkCall ref i args t = .ok () ↔ s.returnType.ConvertsTo t := by
  rw [checkCall_eq_ok_iff_exists, ← ColumnType.isSome_conversionTo_iff]
  constructor
  · rintro ⟨signatures', s', hfound', hs', _, hreturn⟩
    rw [hfound] at hfound'
    cases hfound'
    rw [hs] at hs'
    cases hs'
    exact hreturn
  · exact fun hreturn => ⟨signatures, s, hfound, hs, haccepts, hreturn⟩

/-- A call that is built of arguments that pass the check passes it, unless the type
that it states does not convert to itself. -/
theorem checkExpr_of_callExpr {column : String} {visible : List VisibleColumn} {args : List Expr}
    {e : Expr} (hcallable : f.isTemplate = false) (hknown : c.Knows f)
    (hargs : ∀ a ∈ args, c.checkExpr column visible a = .ok ()) (he : f.callExpr args = .ok e) :
    c.checkExpr column visible e = .ok () ↔ e.type.isWhole = true := by
  unfold BoundFunction.callExpr at he
  split at he
  · cases he
  · rename_i i s cs hresolve
    obtain ⟨hs, haccepts⟩ := BoundFunction.resolve_eq_ok hresolve
    obtain ⟨signatures, t, hfound, ht, hsame, hreturn⟩ := hknown.signature hcallable hs
    have hisSome : (t.accepts? (args.map Expr.type)).isSome = true := by
      rw [hsame, haccepts]
      rfl
    cases himplementation : f.implementation with
    | templates ts =>
      rw [BoundFunction.isTemplate, himplementation] at hcallable
      cases hcallable
    | callables cs =>
      rw [himplementation] at he
      cases he
      rw [checkExpr_eq_ok_iff]
      have hcheck : c.checkCall f.ref i (args.map Expr.type) s.returnType = .ok () ↔
          s.returnType.isWhole = true := by
        rw [checkCall_eq_ok_iff hfound ht hisSome, hreturn, ColumnType.convertsTo_self_iff]
      refine Iff.trans ⟨fun htyped => ?_, fun hcall => ?_⟩ hcheck
      · cases htyped with
        | call _ hcall => exact hcall
      · exact .call (fun a ha => checkExpr_eq_ok_iff.1 (hargs a ha)) hcall

end Catalog

namespace Sample

/-- A catalog with one function. -/
def registering (f : BoundFunction) : Catalog := .fresh {} (Registry.register SortedMap.empty f).2

/-- The type of images of one width and any height. -/
def strip : ColumnType := .image (some 10) none none

/-- A declaration that fixes one dimension of its result. -/
def thumbnailDescriptor : FunctionDescriptor where
  name := "thumbnail"
  module := some "images"
  qualifiedName := "thumbnail"
  params := [⟨"page", .known .int, none, false⟩]
  result := ⟨.known strip, false⟩

/-- A function of images of one width and any height. -/
def thumbnail : BoundFunction where
  id := .ofNat 4
  name := "thumbnail"
  path := some "images.thumbnail"
  signatures := [⟨[⟨"page", .int, none, false⟩], strip, false⟩]
  implementation := .callables [firstArgument]
  batchSize := none
  isMethod := false
  isProperty := false
  pool := none

theorem obtained_thumbnail : thumbnail.Obtained := by
  have hbind : (Registry.bind SortedMap.empty (.ofNat 4) thumbnailDescriptor firstArgument {}
      ).1.result = .ok thumbnail := rfl
  exact .bound (fun _ _ h => by cases h) hbind

end Sample

/-- A call of a registered function is built over a column, and passes the check. -/
theorem Sample.checkExpr_first :
    Sample.first.isTemplate = false ∧ (Sample.registering Sample.first).Knows Sample.first ∧
      (∀ a ∈ [Expr.column "bytes" (.array none .int8)], (Sample.registering Sample.first).checkExpr
        "head" [⟨"bytes", .array none .int8⟩] a = .ok ()) ∧
      Sample.first.callExpr [.column "bytes" (.array none .int8)] =
        .ok (.call (.path "arrays.first") 1 [.column "bytes" (.array none .int8)]
          (.array none .int8)) ∧
      ((Sample.registering Sample.first).checkExpr "head" [⟨"bytes", .array none .int8⟩]
          (.call (.path "arrays.first") 1 [.column "bytes" (.array none .int8)]
            (.array none .int8)) = .ok () ↔
        (ColumnType.array none .int8).isWhole = true) := by
  have hknown : (Sample.registering Sample.first).Knows Sample.first :=
    .registered rfl rfl (.inl rfl)
  have hargs : ∀ a ∈ [Expr.column "bytes" (.array none .int8)],
      (Sample.registering Sample.first).checkExpr "head" [⟨"bytes", .array none .int8⟩] a =
        .ok () := by
    intro a ha
    rw [List.mem_singleton.1 ha]
    rfl
  exact ⟨rfl, hknown, hargs, rfl, Catalog.checkExpr_of_callExpr rfl hknown hargs rfl⟩

/-- A call of a function that fixes one dimension of its images is built over a column
that passes the check, and does not pass it itself. -/
theorem Sample.refused_thumbnail :
    Sample.thumbnail.Obtained ∧ Sample.thumbnail.isTemplate = false ∧
      (Sample.registering Sample.thumbnail).registry.lookup "images.thumbnail" =
        some Sample.thumbnail ∧
      (Sample.registering Sample.thumbnail).checkExpr "cover" [⟨"page", .int⟩]
        (.column "page" .int) = .ok () ∧
      Sample.thumbnail.callExpr [.column "page" .int] =
        .ok (.call (.path "images.thumbnail") 0 [.column "page" .int] Sample.strip) ∧
      (Sample.registering Sample.thumbnail).checkExpr "cover" [⟨"page", .int⟩]
          (.call (.path "images.thumbnail") 0 [.column "page" .int] Sample.strip) =
        .error (.type (.noConversion Sample.strip Sample.strip)) :=
  ⟨Sample.obtained_thumbnail, rfl, rfl, rfl, rfl, rfl⟩

end Cadastre
