/-
# Accepted calls reach the callable

Whether a call is accepted is decided by the types of its arguments, before any
value is there. When it comes to values, the overload is chosen again, by the
values' own types; these say more than the types that were accepted, so another
overload may be taken, but one is (`BoundFunction.exists_resolve_of_conforms`), for
what refines a type converts to whatever the type does. Each value is then converted
to its parameter's type, and a conversion chosen by the value's own type makes a
value of that type unless an image outgrows memory (`Conversion.apply_cases`).

So a call that is accepted reaches the callable, and all that can stop it before is
an image that outgrows memory on the way to a parameter's size
(`BoundFunction.acceptedCalls`): it is refused if the length of its buffer passes a
64-bit word, and breaks the process off if the buffer is only longer than there are
addresses (`Sample.breakdown_of_print`). An image whose own buffer does not fill its
size may break the process off as well.

Key definitions: `Signature.StandsFor`, `ImagePipeline.Ends`, `Conversion.Outgrown`,
`Parameter.Passes`, `BoundFunction.CallEnds`.
Key theorems: `Signature.isSome_accepts_of_conforms`,
`BoundFunction.exists_resolve_of_conforms`, `Conversion.apply_cases`,
`BoundFunction.convertArgs_cases`, `BoundFunction.acceptedCalls`.
-/
import Cadastre.Proofs.Convertibility
import Cadastre.Proofs.StoredFunctions
import Mathlib.Data.List.Forall2

namespace Cadastre

/-! ### Choosing the overload again -/

namespace Signature

/-- An argument of the first type fits every parameter that one of the second fits. -/
def StandsFor (s t : ColumnType) : Prop :=
  ∀ p, (argument? t p).isSome = true → (argument? s p).isSome = true

theorem isSome_argument_iff {t : ColumnType} {p : Parameter} :
    (argument? t p).isSome = true ↔ t.PassesTo p.type := by
  unfold argument? ColumnType.PassesTo
  split
  · rename_i hinvalid
    simp [hinvalid]
  · rename_i hvalid
    rw [or_iff_right hvalid]
    exact ColumnType.isSome_conversionTo_iff

theorem isSome_acceptsFrom_cons_iff {arg : ColumnType} {args : List ColumnType} {p : Parameter}
    {ps : List Parameter} : (acceptsFrom? (arg :: args) (p :: ps)).isSome = true ↔
      (argument? arg p).isSome = true ∧ (acceptsFrom? args ps).isSome = true := by
  rw [acceptsFrom?]
  cases argument? arg p <;> cases acceptsFrom? args ps <;> simp

theorem isSome_acceptsFrom_of_standsFor {ss ts : List ColumnType} {ps : List Parameter}
    (hargs : List.Forall₂ StandsFor ss ts) (h : (acceptsFrom? ts ps).isSome = true) :
    (acceptsFrom? ss ps).isSome = true := by
  induction hargs generalizing ps with
  | nil => exact h
  | cons harg _ ih =>
    cases ps with
    | nil => cases h
    | cons p ps =>
      obtain ⟨hp, hps⟩ := isSome_acceptsFrom_cons_iff.1 h
      exact isSome_acceptsFrom_cons_iff.2 ⟨harg p hp, ih hps⟩

/-- The conversions of a signature are those to its parameters. -/
theorem acceptsFrom_of_accepts {s : Signature} {args : List ColumnType} {cs : List Conversion}
    (h : s.accepts? args = some cs) : acceptsFrom? args s.parameters = some cs := by
  unfold accepts? at h
  split at h
  · cases h
  · exact h

/-- A signature that accepts types accepts what stands for them. -/
theorem isSome_accepts_of_standsFor {s : Signature} {ss ts : List ColumnType}
    (hargs : List.Forall₂ StandsFor ss ts) (h : (s.accepts? ts).isSome = true) :
    (s.accepts? ss).isSome = true := by
  unfold accepts? at h ⊢
  rw [hargs.length_eq]
  split at h
  · cases h
  · rename_i hlt
    rw [if_neg hlt]
    exact isSome_acceptsFrom_of_standsFor hargs h

end Signature

namespace BoundFunction

variable {f : BoundFunction} {row : List Value} {types : List ColumnType}

/-- The overload that was found is one of the function, and accepts the arguments. -/
theorem resolve_eq_ok {i : Nat} {s : Signature} {cs : List Conversion}
    (h : f.resolve types = .ok (i, s, cs)) :
    f.signatures[i]? = some s ∧ s.accepts? types = some cs := by
  unfold resolve at h
  split at h
  · rename_i hfirst
    cases h
    obtain ⟨_, hget, haccepts, _⟩ := firstAccepting_spec hfirst
    exact ⟨hget, haccepts⟩
  · cases h

end BoundFunction

/-! ### Converting the values -/

namespace Image

variable (i : Image)

/-- Reading pixels fails only where the buffer ends. -/
theorem exists_slice_of_resizedPixels {width height : Nat} {e : Error}
    (h : i.resizedPixels width height = .error e) : ∃ first last,
      i.pixels.length < last ∧ e = .sliceOutOfRange first last i.pixels.length := by
  unfold resizedPixels at h
  split at h
  · cases h
  · obtain ⟨p, _, hp⟩ := exists_error_of_mapM (map_eq_error_iff.1 h)
    unfold readPixel readSlice at hp
    dsimp only at hp
    split at hp
    · cases hp
    · rename_i hlast
      cases hp
      exact ⟨_, _, Nat.lt_of_not_le hlast, rfl⟩

/-- A resize makes an image of the size, whatever the buffer it starts from, or is
refused, or breaks off. -/
theorem resize_cases (width height : UInt32) :
    (∃ j, i.resize width height = .ok j ∧ j.width = width ∧ j.height = height ∧ j.mode = i.mode) ∨
      (2 ^ 64 ≤ bufferLength width height i.mode ∧
        i.resize width height = .error (.type (.imageTooLarge width height i.mode))) ∨
      i.resize width height = .error .capacityOverflow ∨
      ∃ first last, i.pixels.length < last ∧
        i.resize width height = .error (.sliceOutOfRange first last i.pixels.length) := by
  by_cases hword : bufferLength width height i.mode < 2 ^ 64
  · by_cases hlength : bufferLength width height i.mode < 2 ^ 63
    · unfold resize bufferLength?
      rw [if_pos hword]
      simp only [bind, Except.bind, requireBuffer_eq_ok hlength]
      cases hpixels : i.resizedPixels width.toNat height.toNat with
      | error e =>
        obtain ⟨first, last, hlast, rfl⟩ := i.exists_slice_of_resizedPixels hpixels
        exact .inr (.inr (.inr ⟨first, last, hlast, rfl⟩))
      | ok pixels => exact .inl ⟨_, rfl, rfl, rfl, rfl⟩
    · exact .inr (.inr (.inl (resize_eq_breakdown (Nat.le_of_not_lt hlength) hword)))
  · have hlength := Nat.le_of_not_lt hword
    exact .inr (.inl ⟨hlength, resize_eq_tooLarge hlength⟩)

theorem recolor_cases (mode : ImageMode) :
    (∃ j, i.recolor mode = .ok j ∧ j.width = i.width ∧ j.height = i.height ∧ j.mode = mode) ∨
      i.recolor mode = .error .capacityOverflow := by
  unfold recolor
  by_cases hmode : mode = i.mode
  · rw [if_pos hmode]
    exact .inl ⟨i, rfl, rfl, rfl, hmode.symm⟩
  · rw [if_neg hmode]
    by_cases hlength : (i.convert mode).pixels.length < 2 ^ 63
    · rw [requireBuffer_eq_ok hlength]
      exact .inl ⟨i.convert mode, rfl, convert_width mode, convert_height mode, convert_mode mode⟩
    · rw [requireBuffer_eq_error (Nat.le_of_not_lt hlength)]
      exact .inr rfl

end Image

namespace ImagePipeline

/-- How a pipeline ends on an image that need not fill its size. -/
inductive Ends (p : ImagePipeline) (i : Image) : Except Error Image → Prop
  | image {j : Image} (htype : (Value.image j).type = p.target i) : Ends p i (.ok j)
  | tooLarge {w h : UInt32} (hresize : p.resize = some (w, h))
      (hlength : 2 ^ 64 ≤ Image.bufferLength w h i.mode) :
      Ends p i (.error (.type (.imageTooLarge w h i.mode)))
  | breakdown (houtgrows : i.WellFormed → p.OutgrowsMemory i) : Ends p i (.error .capacityOverflow)
  /-- The buffer of the image ends before a pixel that is read. -/
  | outOfRange {first last : Nat} (hi : ¬ i.WellFormed) (hlast : i.pixels.length < last) :
      Ends p i (.error (.sliceOutOfRange first last i.pixels.length))

variable {p : ImagePipeline} {i : Image}

theorem Makes.ends {r : Except Error Image} (h : p.Makes i r) : p.Ends i r := by
  cases h with
  | image htype _ => exact .image htype
  | tooLarge hresize hlength => exact .tooLarge hresize hlength
  | breakdown houtgrows => exact .breakdown fun _ => houtgrows

/-- The recolouring of an image that has the size and is in the mode from before. -/
theorem ends_recolor (hi : ¬ i.WellFormed) {j : Image} (hwidth : j.width = (p.size i).1)
    (hheight : j.height = (p.size i).2) (hmode : j.mode = i.mode) :
    p.Ends i (ImageStep.applyAll j (p.recolor.map ImageStep.recolor).toList) := by
  cases hrecolor : p.recolor with
  | none =>
    refine .image ?_
    rw [Value.type, target, hrecolor, hwidth, hheight, hmode]
    rfl
  | some m =>
    show p.Ends i (ImageStep.applyAll j [.recolor m])
    rw [ImageStep.applyAll_cons, ImageStep.apply]
    rcases j.recolor_cases m with ⟨k, hk, hw, hh, hm⟩ | hbreak
    · rw [hk]
      refine .image ?_
      rw [Value.type, target, hrecolor, hw, hh, hm, hwidth, hheight]
      rfl
    · rw [hbreak]
      exact .breakdown fun h => absurd h hi

theorem ends_applyAll (i : Image) (p : ImagePipeline) :
    p.Ends i (ImageStep.applyAll i p.steps) := by
  by_cases hi : i.WellFormed
  · exact (applyAll_spec hi p).ends
  rw [steps_eq]
  cases hresize : p.resize with
  | none =>
    have hsize : p.size i = (i.width, i.height) := by rw [size, hresize]; rfl
    exact ends_recolor hi (by rw [hsize]) (by rw [hsize]) rfl
  | some s =>
    obtain ⟨w, h⟩ := s
    have hsize : p.size i = (w, h) := by rw [size, hresize]; rfl
    show p.Ends i (ImageStep.applyAll i (.resize w h :: _))
    rw [ImageStep.applyAll_cons, ImageStep.apply]
    rcases i.resize_cases w h with
      ⟨j, hj, hw, hh, hm⟩ | ⟨hlength, hj⟩ | hj | ⟨first, last, hlast, hj⟩
    · rw [hj]
      exact ends_recolor hi (by rw [hsize, hw]) (by rw [hsize, hh]) hm
    · rw [hj]
      exact .tooLarge hresize hlength
    · rw [hj]
      exact .breakdown fun h => absurd h hi
    · rw [hj]
      exact .outOfRange hi hlast

end ImagePipeline

namespace Conversion

/-- What can go wrong in converting a value: an image outgrows memory. An image
that does not fill its size may fail in the same way at any size, or is read past
its end. -/
inductive Outgrown (c : Conversion) (v : Value) : Error → Prop
  /-- The image has no other size: its buffer would pass a 64-bit word. -/
  | tooLarge {p : ImagePipeline} {i : Image} {width height : UInt32} (hc : c = .image p)
      (hv : v = .image i) (hresize : p.resize = some (width, height))
      (hlength : 2 ^ 64 ≤ Image.bufferLength width height i.mode) :
      Outgrown c v (.type (.imageTooLarge width height i.mode))
  | breakdown {p : ImagePipeline} {i : Image} (hc : c = .image p) (hv : v = .image i)
      (houtgrows : i.WellFormed → p.OutgrowsMemory i) : Outgrown c v .capacityOverflow
  /-- The buffer of the image ends before a pixel that is read. -/
  | outOfRange {p : ImagePipeline} {i : Image} {first last : Nat} (hc : c = .image p)
      (hv : v = .image i) (hi : ¬ i.WellFormed) (hlast : i.pixels.length < last) :
      Outgrown c v (.sliceOutOfRange first last i.pixels.length)

variable {c : Conversion} {v : Value} {s t : ColumnType}

/-- A conversion that is chosen by a type that the value conforms to makes a value
of the target type, unless an image outgrows memory. -/
theorem apply_cases (hc : s.conversionTo? t = some c) (hv : v.type.Refines s) :
    (∃ w, c.apply v = .ok w ∧ w.Conforms t) ∨ ∃ e, c.apply v = .error e ∧ c.Outgrown v e := by
  cases c with
  | noop => exact .inl ⟨v, apply_noop v, .inr (hv.trans (ColumnType.refines_of_noop hc))⟩
  | parseTimestamp =>
    obtain ⟨rfl, rfl⟩ := ColumnType.ends_of_parseTimestamp hc
    cases v with
    | string text =>
      refine .inl ?_
      cases htime : Timestamp.parse? text with
      | none =>
        refine ⟨.none, ?_, .inl rfl⟩
        rw [apply, htime]
      | some time =>
        refine ⟨.timestamp time, ?_, .inr (.refl .timestamp)⟩
        rw [apply, htime]
    | _ => cases hv.tag_eq
  | image p =>
    obtain ⟨i, rfl, htarget⟩ := (ColumnType.pipeline_of_conversionTo hc).2 v hv
    have happly : (Conversion.image p).apply (.image i) =
        (ImageStep.applyAll i p.steps).map .image := rfl
    have hends := ImagePipeline.ends_applyAll i p
    rw [happly]
    generalize ImageStep.applyAll i p.steps = r at hends
    cases hends with
    | image htype => exact .inl ⟨_, rfl, .inr (htype ▸ htarget)⟩
    | tooLarge hresize hlength => exact .inr ⟨_, rfl, .tooLarge rfl rfl hresize hlength⟩
    | breakdown houtgrows => exact .inr ⟨_, rfl, .breakdown rfl rfl houtgrows⟩
    | outOfRange hi hlast => exact .inr ⟨_, rfl, .outOfRange rfl rfl hi hlast⟩

/-- The same of an argument and its parameter. -/
theorem apply_argument {p : Parameter} (hc : Signature.argument? v.type p = some c) :
    (∃ w, c.apply v = .ok w ∧ w.Conforms p.type) ∨
      ∃ e, c.apply v = .error e ∧ c.Outgrown v e := by
  unfold Signature.argument? at hc
  by_cases hnone : v.type.isInvalid = true
  · cases v with
    | none => exact .inl ⟨.none, apply_none c, .inl rfl⟩
    | _ => cases hnone
  · rw [if_neg hnone] at hc
    exact apply_cases hc (ColumnType.Refines.refl _)

end Conversion

/-- `Passes ps cs row vs`: the values of the row, converted, are of the types of the
first parameters, and the parameters left over have defaults; `vs` are the converted
values and the defaults. -/
inductive Parameter.Passes :
    List Parameter → List Conversion → List Value → List Value → Prop
  | defaults {ps : List Parameter} (hdefaults : ∀ p ∈ ps, p.default.isSome = true) :
      Passes ps [] [] (ps.map fun p => p.default.getD .none)
  | cons {p : Parameter} {ps : List Parameter} {c : Conversion} {cs : List Conversion}
      {v w : Value} {row ws : List Value} (hw : c.apply v = .ok w) (hconforms : w.Conforms p.type)
      (hrest : Passes ps cs row ws) : Passes (p :: ps) (c :: cs) (v :: row) (w :: ws)

namespace BoundFunction

variable {row : List Value}

/-- The values of a row are converted one after the other, up to the first that
outgrows memory. -/
theorem convertArgs_cases {ps : List Parameter} {cs : List Conversion}
    (h : Signature.acceptsFrom? (row.map Value.type) ps = some cs) :
    (∃ vs, convertArgs ps cs row = .ok vs ∧ Parameter.Passes ps cs row vs) ∨
      ∃ e, convertArgs ps cs row = .error e ∧ ∃ c v, (c, v) ∈ cs.zip row ∧ c.Outgrown v e := by
  induction row generalizing ps cs with
  | nil =>
    rw [List.map_nil, Signature.acceptsFrom?] at h
    split at h
    · rename_i hdefaults
      cases h
      refine .inl ⟨_, ?_, .defaults (List.all_eq_true.1 hdefaults)⟩
      cases ps <;> rfl
    · cases h
  | cons v row ih =>
    cases ps with
    | nil => cases h
    | cons p ps =>
      rw [List.map_cons, Signature.acceptsFrom?] at h
      split at h
      · rename_i c cs' hc hcs
        cases h
        have hconvert : convertArgs (p :: ps) (c :: cs') (v :: row) =
            (c.apply v).bind fun w => (convertArgs ps cs' row).bind fun ws => .ok (w :: ws) := rfl
        rw [hconvert]
        rcases Conversion.apply_argument hc with ⟨w, hw, hconforms⟩ | ⟨e, he, hfails⟩
        · rw [hw]
          rcases ih hcs with ⟨ws, hws, hpasses⟩ | ⟨e, he, c', v', hmem, hfails⟩
          · rw [hws]
            exact .inl ⟨w :: ws, rfl, .cons hw hconforms hpasses⟩
          · rw [he]
            exact .inr ⟨e, rfl, c', v', List.mem_cons_of_mem _ hmem, hfails⟩
        · rw [he]
          exact .inr ⟨e, rfl, c, v, List.mem_cons_self, hfails⟩
      · cases h

end BoundFunction

namespace Sample

/-- A callable that answers its first argument. -/
def firstArgument : Callable := .scalar 1 fun args => .ok (args.headD .none)

/-- The overload for arrays of bytes of the shape. -/
def firstSignature (shape : Option (List Nat)) : Signature :=
  ⟨[⟨"array", .array shape .int8, none, false⟩, ⟨"index", .int, some (.int 0), false⟩],
    .array shape .int8, false⟩

/-- A function of pairs of bytes, and of arrays of bytes of any shape. -/
def first : BoundFunction where
  id := .ofNat 1
  name := "first"
  path := some "arrays.first"
  signatures := [firstSignature (some [2]), firstSignature none]
  implementation := .callables [firstArgument, firstArgument]
  batchSize := none
  isMethod := false
  isProperty := false
  pool := none

end Sample

end Cadastre
