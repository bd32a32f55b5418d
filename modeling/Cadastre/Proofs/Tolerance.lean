/-
# What a record can do without

A record is changed in an object somewhere within it, be it the record itself or a record
in one of its fields, at any depth (`Edits`). A member with a name that is no field is
not looked at, and a field that holds its default may be missing: a record that is
changed so is read as it was (`Edits.read?_eq`). A field that must be there may not be
missing anywhere (`Edits.read?_eq_none`). Which fields these are is the format of the
records (`RecordKind.layout`).

The lists of signatures, of parameters and of arguments, and those in images and arrays,
must be there even if they are empty, though other lists and maps need not
(`Sample.missing_parameters`).

Key definitions: `Edits`, `Harmless`, `Lacking`, `Payload.Tolerates`.
Key theorems: `Edits.read?_eq`, `Edits.read?_eq_none`, `Payload.tolerance`.
-/
import Cadastre.Proofs.RecordFormat
import Cadastre.Proofs.RoundTrip.Expr
import Mathlib.Logic.Relation

namespace Cadastre

/-! ### Edits -/

/-- The second value is the first with one change: a record in it that is an object has
the members changed, according to its fields. -/
inductive Edits (change : List Field → List (String × Json) → List (String × Json) → Prop) :
    Content → Json → Json → Prop
  | here {k : RecordKind} {s : String} {fs : List Field} {ms ms' : List (String × Json)}
      (hcase : k.layout.case? (.obj ms) = some (s, fs)) (h : change fs ms ms') :
      Edits change (.record k) (.obj ms) (.obj ms')
  /-- In a field of an object. -/
  | field {k : RecordKind} {s : String} {fs : List Field} {f : Field} {l r : List (String × Json)}
      {j j' : Json} (hcase : k.layout.case? (.obj (l ++ (f.name, j) :: r)) = some (s, fs))
      (hf : f ∈ fs) (hfirst : f.name ∉ l.map Prod.fst) (h : Edits change f.content j j') :
      Edits change (.record k) (.obj (l ++ (f.name, j) :: r)) (.obj (l ++ (f.name, j') :: r))
  /-- In a field of a record that is a list. -/
  | slot {k : RecordKind} {s : String} {before after : List Field} {f : Field} {l r : List Json}
      {j j' : Json} (hcase : k.layout.case? (.arr (l ++ j :: r)) = some (s, before ++ f :: after))
      (hlength : before.length = l.length) (h : Edits change f.content j j') :
      Edits change (.record k) (.arr (l ++ j :: r)) (.arr (l ++ j' :: r))
  | item {c : Content} {l r : List Json} {j j' : Json} (h : Edits change c j j') :
      Edits change (.items c) (.arr (l ++ j :: r)) (.arr (l ++ j' :: r))
  | column {c : Content} {l r : List (String × Json)} {name : String} {j j' : Json}
      (h : Edits change c j j') :
      Edits change (.columns c) (.obj (l ++ (name, j) :: r)) (.obj (l ++ (name, j') :: r))
  | present {c : Content} {j j' : Json} (h : Edits change c j j') : Edits change (.orNull c) j j'
  | image {p : Json.Place} {j j' : Json} (h : Edits change (.record (.image p)) j j') :
      Edits change (.value p) (.obj [("Image", j)]) (.obj [("Image", j')])
  | array {p : Json.Place} {j j' : Json} (h : Edits change (.record (.array p)) j j') :
      Edits change (.value p) (.obj [("Array", j)]) (.obj [("Array", j')])

/-- A member is added that is none of the fields, or a field with its default is removed. -/
inductive Harmless (fs : List Field) : List (String × Json) → List (String × Json) → Prop
  | unknown {l r : List (String × Json)} {name : String} {j : Json}
      (hname : name ∉ fs.map Field.name) : Harmless fs (l ++ r) (l ++ (name, j) :: r)
  | default {ms : List (String × Json)} {f : Field} {isDefault : Json → Prop} {j : Json}
      (hf : f ∈ fs) (hfallback : f.fallback = some isDefault) (hj : ms.lookup f.name = some j)
      (hdefault : isDefault j) : Harmless fs ms (ms.filter fun m => m.1 != f.name)

/-- A field is removed that must be there. -/
inductive Lacking (fs : List Field) : List (String × Json) → List (String × Json) → Prop
  | required {ms : List (String × Json)} {f : Field} (hf : f ∈ fs) (hrequired : f.fallback = none) :
      Lacking fs ms (ms.filter fun m => m.1 != f.name)

/-! ### Members -/

section Members

variable {l r ms : List (String × Json)} {name key : String} {j : Json}

theorem lookup_append_cons_of_ne (h : name ≠ key) :
    (l ++ (key, j) :: r).lookup name = (l ++ r).lookup name := by
  rw [List.lookup_append, List.lookup_append, Json.lookup_cons_of_ne h]

theorem lookup_append_cons_self (h : name ∉ l.map Prod.fst) :
    (l ++ (name, j) :: r).lookup name = some j := by
  have hnone : l.lookup name = none := by
    rw [List.lookup_eq_none_iff]
    intro m hm
    exact bne_iff_ne.2 fun heq => h (List.mem_map.2 ⟨m, hm, heq.symm⟩)
  rw [List.lookup_append, hnone, List.lookup_cons_self]
  rfl

theorem lookup_filter_self : (ms.filter fun m => m.1 != name).lookup name = none := by
  rw [List.lookup_eq_none_iff]
  intro m hm
  exact bne_iff_ne.2 (bne_iff_ne.1 (List.mem_filter.1 hm).2).symm

theorem lookup_filter_of_ne (h : name ≠ key) :
    (ms.filter fun m => m.1 != key).lookup name = ms.lookup name := by
  induction ms with
  | nil => rfl
  | cons m ms ih =>
    obtain ⟨n, j⟩ := m
    rw [List.filter_cons]
    split
    · rw [List.lookup_cons, List.lookup_cons, ih]
    · rename_i heq
      have hn : n = key := by simpa using heq
      rw [ih, Json.lookup_cons_of_ne (hn ▸ h)]

end Members

namespace Field

variable {fs : List Field} {f g : Field} {l r ms ms' : List (String × Json)} {j j' : Json}

theorem eq_of_name_eq (hnodup : (fs.map name).Nodup) (hf : f ∈ fs) (hg : g ∈ fs)
    (h : g.name = f.name) : g = f :=
  List.inj_on_of_nodup_map hnodup hg hf h

/-- If what is in one field is read as it was, the fields are. -/
theorem keeps_of_read?_eq (hnodup : (fs.map name).Nodup) (hf : f ∈ fs)
    (hfirst : f.name ∉ l.map Prod.fst) (hread : f.content.read? j' = f.content.read? j) :
    ∀ g ∈ fs, g.Keeps (l ++ (f.name, j) :: r) (l ++ (f.name, j') :: r) := by
  intro g hg
  by_cases hname : g.name = f.name
  · obtain rfl := eq_of_name_eq hnodup hf hg hname
    exact .edited (lookup_append_cons_self hfirst) (lookup_append_cons_self hfirst) hread
  · refine .unchanged ?_
    rw [lookup_append_cons_of_ne hname, lookup_append_cons_of_ne hname]

end Field

theorem Harmless.keeps {fs : List Field} {ms ms' : List (String × Json)} (h : Harmless fs ms ms')
    (hnodup : (fs.map Field.name).Nodup) : ∀ g ∈ fs, g.Keeps ms ms' := by
  intro g hg
  cases h with
  | unknown hname =>
    exact .unchanged (lookup_append_cons_of_ne fun heq => hname (List.mem_map.2 ⟨g, hg, heq⟩))
  | @default _ f _ _ hf hfallback hj hdefault =>
    by_cases hname : g.name = f.name
    · obtain rfl := Field.eq_of_name_eq hnodup hf hg hname
      exact .dropped hfallback hj hdefault lookup_filter_self
    · exact .unchanged (lookup_filter_of_ne hname)

/-! ### Cases -/

namespace Layout

variable {L : Layout} {s : String} {fs : List Field} {ms ms' : List (String × Json)}

/-- The case of an object is that of its tag. -/
theorem case?_tagged_obj {p : Json.Place} {tag : String} {cases : List (String × List Field)} :
    (tagged p tag cases).case? (.obj ms) =
      ((ms.lookup tag).bind (Json.tag? p (cases.map Prod.fst))).bind fun s =>
        (cases.lookup s).map fun fs => (s, .required tag :: fs) := by
  rw [case?, Json.variant?]
  cases (ms.lookup tag).bind (Json.tag? p (cases.map Prod.fst)) with
  | none => rfl
  | some s => cases hs : cases.lookup s <;> simp [hs]

/-- The case of a list is that of its first item. -/
theorem case?_tagged_arr {p : Json.Place} {tag : String} {cases : List (String × List Field)}
    {t : Json} {items : List Json} :
    (tagged p tag cases).case? (.arr (t :: items)) =
      (Json.tag? p (cases.map Prod.fst) t).bind fun s =>
        (cases.lookup s).map fun fs => (s, .required tag :: fs) := by
  rw [case?, Json.variant?]
  cases Json.tag? p (cases.map Prod.fst) t with
  | none => rfl
  | some s => cases hs : cases.lookup s <;> simp [hs]

/-- The case stays if the plain fields do that must be there. -/
theorem case?_congr (hcase : L.case? (.obj ms) = some (s, fs))
    (h : ∀ name, Field.required name ∈ fs → ms'.lookup name = ms.lookup name) :
    L.case? (.obj ms') = some (s, fs) := by
  cases L with
  | struct fs' => exact hcase
  | tagged p tag cases =>
    obtain ⟨_, fs', _, _, rfl⟩ := Describes.case?_tagged_eq_some_iff.1 hcase
    rw [case?_tagged_obj] at hcase ⊢
    rw [h tag List.mem_cons_self, hcase]

/-- An object has the case that it had, or none, if a field is removed. -/
theorem case?_filter (hcase : L.case? (.obj ms) = some (s, fs)) (name : String) :
    L.case? (.obj (ms.filter fun m => m.1 != name)) = none ∨
      L.case? (.obj (ms.filter fun m => m.1 != name)) = some (s, fs) := by
  cases L with
  | struct fs' => exact .inr hcase
  | tagged p tag cases =>
    rw [case?_tagged_obj] at hcase ⊢
    by_cases htag : tag = name
    · rw [htag, lookup_filter_self]
      exact .inl rfl
    · rw [lookup_filter_of_ne htag]
      exact .inr hcase

/-- The case stays if the items do that stand for plain fields. -/
theorem case?_slot {before after : List Field} {f : Field} {l r : List Json} {j j' : Json}
    (hcase : L.case? (.arr (l ++ j :: r)) = some (s, before ++ f :: after))
    (hlength : before.length = l.length) (hf : f.content ≠ .plain) :
    L.case? (.arr (l ++ j' :: r)) = some (s, before ++ f :: after) := by
  cases L with
  | struct fs' => exact hcase
  | tagged p tag cases =>
    cases l with
    | nil =>
      -- the first item is the tag
      obtain ⟨_, fs', _, _, heq⟩ := Describes.case?_tagged_eq_some_iff.1 hcase
      rw [List.length_eq_zero_iff.1 hlength, List.nil_append, List.cons.injEq] at heq
      exact absurd (congrArg Field.content heq.1) hf
    | cons t l =>
      rw [List.cons_append, case?_tagged_arr] at hcase ⊢
      exact hcase

namespace Describes

variable {α : Type} {read : Json → Option α}

theorem read_congr (hL : L.Describes read) (hcase : L.case? (.obj ms) = some (s, fs))
    (h : ∀ f ∈ fs, f.Keeps ms ms') : read (.obj ms') = read (.obj ms) := by
  obtain ⟨body, hbody, hread⟩ := hL.byFields hcase
  have hcase' := case?_congr hcase fun name hname => (h _ hname).lookup_eq
  rw [hread _ hcase, hread _ hcase']
  exact hbody.congr h

theorem read_eq_none (hL : L.Describes read) (hcase : L.case? (.obj ms) = some (s, fs))
    {f : Field} (hf : f ∈ fs) (h : f.Fails ms) : read (.obj ms) = none := by
  obtain ⟨body, hbody, hread⟩ := hL.byFields hcase
  rw [hread _ hcase]
  exact hbody.fails hf h

/-- The case stays if a field changes that is not plain. -/
theorem case?_field (hL : L.Describes read) {f : Field} {l r : List (String × Json)} {j j' : Json}
    (hcase : L.case? (.obj (l ++ (f.name, j) :: r)) = some (s, fs)) (hf : f ∈ fs)
    (hplain : f.content ≠ .plain) :
    L.case? (.obj (l ++ (f.name, j') :: r)) = some (s, fs) := by
  refine case?_congr hcase fun name hname => ?_
  have hne : name ≠ f.name := by
    intro heq
    have hrequired : Field.required name = f :=
      Field.eq_of_name_eq (hL.nodup hcase) hf hname heq
    exact hplain (hrequired ▸ rfl)
  rw [lookup_append_cons_of_ne hne, lookup_append_cons_of_ne hne]

/-- The fields of a list in their places. -/
theorem read_slot (hL : L.Describes read) {before after : List Field} {f : Field} {l r : List Json}
    {j : Json} (hcase : L.case? (.arr (l ++ j :: r)) = some (s, before ++ f :: after))
    (hlength : before.length = l.length) : ∃ body, Reads (before ++ f :: after) body ∧
      ∀ j', L.case? (.arr (l ++ j' :: r)) = some (s, before ++ f :: after) →
        read (.arr (l ++ j' :: r)) = if r.length ≤ after.length then
          body ((before.map Field.name).zip l ++ (f.name, j') :: (after.map Field.name).zip r)
        else none := by
  obtain ⟨body, hbody, hread⟩ := hL.byFields hcase
  refine ⟨body, hbody, fun j' hcase' => ?_⟩
  have hle : (l ++ j' :: r).length ≤ ((before ++ f :: after).map Field.name).length ↔
      r.length ≤ after.length := by
    simp [hlength]
  have hzip : ((before ++ f :: after).map Field.name).zip (l ++ j' :: r) =
      (before.map Field.name).zip l ++ (f.name, j') :: (after.map Field.name).zip r := by
    rw [List.map_append, List.map_cons, List.zip_append (by simpa using hlength),
      List.zip_cons_cons]
  rw [hread _ hcase', Json.members?, hzip]
  simp only [hle]
  split <;> rfl

/-- No field before that of a place has its name. -/
theorem name_notMem_zip (hL : L.Describes read) {before after : List Field} {f : Field} {j : Json}
    (hcase : L.case? j = some (s, before ++ f :: after)) {l : List Json}
    (hlength : before.length = l.length) :
    f.name ∉ ((before.map Field.name).zip l).map Prod.fst := by
  have hnodup := hL.nodup hcase
  rw [List.map_append, List.map_cons, List.nodup_middle, List.nodup_cons, List.mem_append,
    not_or] at hnodup
  rw [List.map_fst_zip (by simp [hlength])]
  exact hnodup.1.1

theorem read_slot_congr (hL : L.Describes read) {before after : List Field} {f : Field}
    {l r : List Json} {j j' : Json}
    (hcase : L.case? (.arr (l ++ j :: r)) = some (s, before ++ f :: after))
    (hlength : before.length = l.length) (hplain : f.content ≠ .plain)
    (h : f.content.read? j' = f.content.read? j) :
    read (.arr (l ++ j' :: r)) = read (.arr (l ++ j :: r)) := by
  obtain ⟨body, hbody, hread⟩ := hL.read_slot hcase hlength
  have hmem : f ∈ before ++ f :: after := List.mem_append_right _ List.mem_cons_self
  have hkeeps := Field.keeps_of_read?_eq (r := (after.map Field.name).zip r) (hL.nodup hcase) hmem
    (hL.name_notMem_zip hcase hlength) h
  rw [hread _ hcase, hread _ (case?_slot hcase hlength hplain), hbody.congr hkeeps]

theorem read_slot_eq_none (hL : L.Describes read) {before after : List Field} {f : Field}
    {l r : List Json} {j : Json}
    (hcase : L.case? (.arr (l ++ j :: r)) = some (s, before ++ f :: after))
    (hlength : before.length = l.length) (h : f.content.read? j = none) :
    read (.arr (l ++ j :: r)) = none := by
  obtain ⟨body, hbody, hread⟩ := hL.read_slot hcase hlength
  have hmem : f ∈ before ++ f :: after := List.mem_append_right _ List.mem_cons_self
  have hlookup := lookup_append_cons_self (r := (after.map Field.name).zip r) (j := j)
    (hL.name_notMem_zip hcase hlength)
  rw [hread _ hcase, hbody.fails hmem (.unreadable hlookup h), ite_self]

end Describes

end Layout

/-! ### What is read of what was edited -/

namespace Json

variable {α : Type} {read : Json → Option α} {j j' : Json}

theorem readAll_congr {l r : List Json} (h : read j' = read j) :
    readAll read (l ++ j' :: r) = readAll read (l ++ j :: r) := by
  induction l with
  | nil => simp only [List.nil_append, readAll, h]
  | cons i l ih => simp only [List.cons_append, readAll, ih]

theorem readAll_eq_none {l r : List Json} (h : read j = none) :
    readAll read (l ++ j :: r) = none := by
  induction l with
  | nil => rw [List.nil_append, readAll, h]
  | cons i l ih =>
    rw [List.cons_append, readAll, ih]
    cases read i <;> rfl

theorem columnMap?_congr {l r : List (String × Json)} {name : String} (h : read j' = read j) :
    columnMap? read (.obj (l ++ (name, j') :: r)) =
      columnMap? read (.obj (l ++ (name, j) :: r)) := by
  refine congrArg (Option.map SortedMap.ofList) ?_
  induction l with
  | nil => simp only [List.nil_append, columnEntries?, h]
  | cons m l ih => simp only [List.cons_append, columnEntries?, ih]

theorem columnMap?_eq_none {l r : List (String × Json)} {name : String} (h : read j = none) :
    columnMap? read (.obj (l ++ (name, j) :: r)) = none := by
  refine congrArg (Option.map SortedMap.ofList) (?_ : _ = none)
  induction l with
  | nil =>
    rw [List.nil_append, columnEntries?, h]
    cases ColumnId.ofText? name <;> rfl
  | cons m l ih =>
    rw [List.cons_append, columnEntries?, ih]
    cases ColumnId.ofText? m.1 <;> cases read m.2 <;> rfl

theorem nullable_of_ne (h : j ≠ null) : nullable read j = (read j).map some := by
  cases j <;> first | rfl | exact absurd rfl h

end Json

namespace Value

variable {p : Json.Place} {j : Json}

theorem read?_image : read? p (.obj [("Image", j)]) = (Image.read? p j).map image := by
  rw [read?, if_neg fun h => absurd (Json.eq_of_case?_single h) (by decide)]
  rfl

theorem read?_array : read? p (.obj [("Array", j)]) = (NdArray.read? p j).map array := by
  rw [read?, if_neg fun h => absurd (Json.eq_of_case?_single h) (by decide)]
  rfl

end Value

namespace Edits

variable {change : List Field → List (String × Json) → List (String × Json) → Prop}
  {c : Content} {j j' : Json}

theorem ne_plain (h : Edits change c j j') : c ≠ .plain := by
  cases h <;> exact nofun

theorem ne_null (h : Edits change c j j') : j ≠ .null ∧ j' ≠ .null := by
  induction h with
  | present _ ih => exact ih
  | _ => exact ⟨nofun, nofun⟩

/-- A value is read as it was after a harmless change in it. -/
theorem read?_eq (h : Edits Harmless c j j') : c.read? j' = c.read? j := by
  induction h with
  | @here k _ _ _ _ hcase hchange =>
    exact k.describes.read_congr hcase (hchange.keeps (k.describes.nodup hcase))
  | @field k _ _ _ _ _ _ _ hcase hf hfirst _ ih =>
    exact k.describes.read_congr hcase
      (Field.keeps_of_read?_eq (k.describes.nodup hcase) hf hfirst ih)
  | @slot k _ _ _ _ _ _ _ _ hcase hlength h ih =>
    exact k.describes.read_slot_congr hcase hlength h.ne_plain ih
  | item _ ih => exact Json.readAll_congr ih
  | column _ ih => exact Json.columnMap?_congr ih
  | @present c _ _ h ih =>
    show Json.nullable c.read? _ = Json.nullable c.read? _
    rw [Json.nullable_of_ne h.ne_null.1, Json.nullable_of_ne h.ne_null.2, ih]
  | @image p j j' _ ih =>
    show Value.read? p _ = Value.read? p _
    rw [Value.read?_image, Value.read?_image, show Image.read? p j' = Image.read? p j from ih]
  | @array p j j' _ ih =>
    show Value.read? p _ = Value.read? p _
    rw [Value.read?_array, Value.read?_array, show NdArray.read? p j' = NdArray.read? p j from ih]

/-- A value that lacks a field is not read. -/
theorem read?_eq_none (h : Edits Lacking c j j') : c.read? j' = none := by
  induction h with
  | @here k _ _ _ _ hcase hchange =>
    cases hchange with
    | @required f hf hrequired =>
      rcases Layout.case?_filter hcase f.name with hnone | hcase'
      · exact k.describes.noCase hnone
      · exact k.describes.read_eq_none hcase' hf (.missing hrequired lookup_filter_self)
  | @field k _ fs f l r j j' hcase hf hfirst h ih =>
    exact k.describes.read_eq_none (k.describes.case?_field hcase hf h.ne_plain) hf
      (.unreadable (lookup_append_cons_self hfirst) ih)
  | @slot k _ _ _ _ _ _ _ _ hcase hlength h ih =>
    exact k.describes.read_slot_eq_none (Layout.case?_slot hcase hlength h.ne_plain) hlength ih
  | item _ ih => exact Json.readAll_eq_none ih
  | column _ ih => exact Json.columnMap?_eq_none ih
  | @present c _ _ h ih =>
    show Json.nullable c.read? _ = none
    rw [Json.nullable_of_ne h.ne_null.2, ih]
    rfl
  | @image p j j' _ ih =>
    show Value.read? p _ = none
    rw [Value.read?_image, show Image.read? p j' = none from ih]
    rfl
  | @array p j j' _ ih =>
    show Value.read? p _ = none
    rw [Value.read?_array, show NdArray.read? p j' = none from ih]
    rfl

end Edits

/-! ### Contents of records -/

namespace Payload

/-- The content, of the record with the key, is read as it is after harmless changes anywhere
in it. If a field is taken away that must be there, it is refused with an error that names
the key. -/
structure Tolerates (α : Type) [Payload α] (k : RecordKind) (key : Key) (j : Json) : Prop where
  harmless : ∀ j', Relation.ReflTransGen (Edits Harmless (.record k)) j j' →
    (decode key j' : Except Error α) = decode key j
  lacking : ∀ j', Edits Lacking (.record k) j j' →
    ∃ e, (decode key j' : Except Error α) = .error e ∧ e.code = "METADATA_001" ∧
      ∃ before after, e.message = before ++ key.display ++ after

theorem tolerates_of_read? {α : Type} [Payload α] {k : RecordKind} {key : Key} {j : Json}
    (hcongr : ∀ i j, k.read? j = k.read? i → (ofJson? j : Option α) = ofJson? i)
    (hnone : ∀ j, k.read? j = none → (ofJson? j : Option α) = none) : Tolerates α k key j where
  harmless j' h := by
    induction h with
    | refl => rfl
    | @tail i j' _ hedit ih =>
      rw [← ih, decode, decode, hcongr i j' hedit.read?_eq]
  lacking j' h := by
    have hdecode : (decode key j' : Except Error α) = .error (.catalog (.undecodable key)) := by
      rw [decode, hnone j' h.read?_eq_none]
    exact ⟨_, hdecode, rfl, _, _, rfl⟩

/-- Records of every kind are read as they were with unknown members and without fields
that hold their default, and not at all without a field that must be there. -/
theorem tolerance (key : Key) (j : Json) :
    Tolerates SystemInfo .systemInfo key j ∧ Tolerates DirInfo .dirInfo key j ∧
      Tolerates TableHead .tableHead key j ∧ Tolerates DataVersion .dataVersion key j ∧
      Tolerates Schema .schema key j ∧ Tolerates FunctionInfo .functionInfo key j :=
  ⟨tolerates_of_read? (fun _ _ h => h) fun _ h => h,
    tolerates_of_read? (fun _ _ h => h) fun _ h => h,
    tolerates_of_read? (fun _ _ h => h) fun _ h => h,
    tolerates_of_read? (fun _ _ h => h) fun _ h => h,
    tolerates_of_read? (fun _ _ h => h) fun _ h => h,
    tolerates_of_read? (fun _ _ h => h) fun _ h => h⟩

end Payload

namespace Sample

/-- The record of a callable with one signature. -/
def callableRecord (signature : Json) : Json := .obj [
  ("md", .obj [
    ("kind", .str "callable"),
    ("name", .str "f"),
    ("signatures", .arr [signature])])]

/-- The record of a signature without parameters. -/
def constantSignature (returnType : List (String × Json)) : Json :=
  .obj [("parameters", .arr []), ("return_type", .obj returnType)]

/-- A change in the return type of the signature is one in the record. -/
theorem edits_callableRecord
    {change : List Field → List (String × Json) → List (String × Json) → Prop}
    {ms ms' : List (String × Json)} {s : String} {fs : List Field}
    (hcase : (RecordKind.columnType .outer).layout.case? (.obj ms) = some (s, fs))
    (h : change fs ms ms') :
    Edits change (.record .functionInfo) (callableRecord (constantSignature ms))
      (callableRecord (constantSignature ms')) := by
  have hsignature : Edits change (.record .signature) (constantSignature ms)
      (constantSignature ms') :=
    .field (l := [("parameters", .arr [])]) (r := [])
      (f := .required "return_type" (.record (.columnType .outer))) rfl
      (List.mem_cons_of_mem _ List.mem_cons_self) (by decide) (.here hcase h)
  have hsignatures : Edits change (.items (.record .signature)) (.arr [constantSignature ms])
      (.arr [constantSignature ms']) := .item (l := []) (r := []) hsignature
  have hfunction : Edits change (.record .storedFunction)
      (.obj [("kind", .str "callable"), ("name", .str "f"),
        ("signatures", .arr [constantSignature ms])])
      (.obj [("kind", .str "callable"), ("name", .str "f"),
        ("signatures", .arr [constantSignature ms'])]) :=
    .field (l := [("kind", .str "callable"), ("name", .str "f")]) (r := [])
      (f := .required "signatures" (.items (.record .signature))) rfl
      (List.mem_cons_of_mem _ (List.mem_cons_of_mem _ List.mem_cons_self)) (by decide) hsignatures
  exact .field (l := []) (r := []) (f := .required "md" (.record .storedFunction)) rfl
    (List.mem_cons_of_mem _ List.mem_cons_self) (by decide) hfunction

/-- The function of the record, which returns whole numbers. -/
def constantFunction : FunctionInfo := ⟨none, "f", .callable, [⟨[], .int, false⟩], none, []⟩

end Sample

/-- The type that a function returns may have members that are no fields, and may not be
without its name. -/
theorem Sample.tolerance_callable :
    Payload.decode (.function (.ofNat 6))
        (callableRecord (constantSignature [("note", .null), ("type", .str "int")])) =
        .ok constantFunction ∧
      ∃ e, (Payload.decode (.function (.ofNat 6)) (callableRecord (constantSignature [])) :
        Except Error FunctionInfo) = .error e ∧ e.code = "METADATA_001" := by
  have hdecode : Payload.decode (.function (.ofNat 6))
      (callableRecord (constantSignature [("type", .str "int")])) = .ok constantFunction := rfl
  have hnote : Edits Harmless (.record .functionInfo)
      (callableRecord (constantSignature [("type", .str "int")]))
      (callableRecord (constantSignature [("note", .null), ("type", .str "int")])) :=
    edits_callableRecord rfl (.unknown (l := []) (by decide))
  have htype : Edits Lacking (.record .functionInfo)
      (callableRecord (constantSignature [("type", .str "int")]))
      (callableRecord (constantSignature [])) :=
    edits_callableRecord rfl (.required List.mem_cons_self rfl)
  obtain ⟨_, _, _, _, _, htolerates⟩ := Payload.tolerance (.function (.ofNat 6))
    (callableRecord (constantSignature [("type", .str "int")]))
  obtain ⟨e, herror, hcode, _⟩ := htolerates.lacking _ htype
  exact ⟨(htolerates.harmless _ (.single hnote)).trans hdecode, e, herror, hcode⟩

/-- A signature must have its list of parameters, even if that is empty. -/
theorem Sample.missing_parameters :
    Json.list? Parameter.ofJson? (.arr []) = some [] ∧
      Payload.decode (.function (.ofNat 6)) (callableRecord
          (.obj [("parameters", .arr []), ("return_type", .obj [("type", .str "int")])])) =
        .ok constantFunction ∧
      ∃ e, (Payload.decode (.function (.ofNat 6)) (callableRecord
          (.obj [("return_type", .obj [("type", .str "int")])])) : Except Error FunctionInfo) =
        .error e ∧ e.code = "METADATA_001" :=
  ⟨rfl, rfl, _, rfl, rfl⟩

end Cadastre
