/-
# The format of the records

A record is an object of fields, or the list of them in their order. The fields that it
has depend on its kind, and for a tagged record on its tag. A field must be there, or
there is a default for it; and there may be records in it: by itself, in a list, in a map
by column number, as an optional value or as the content of a value. This is the format,
field by field (`RecordKind.layout`).

The readers of the records follow it. What a record is read as depends on what its fields
are read as, where a missing field is read as its default; and nothing is read if a field
is missing that must be there, or is not read itself (`Reads`). The readers are put
together of their fields in order, and the law goes with them (`Reads.required`,
`Reads.optional`, `Reads.defaulted`).

Key definitions: `Content`, `Field`, `RecordKind.layout`, `Field.Keeps`, `Field.Fails`,
`Reads`, `Layout.Describes`.
Key theorems: `Reads.required`, `Reads.defaulted`, `Layout.Describes.struct`,
`Layout.Describes.tagged`, `Expr.read?_eq`, `RecordKind.describes`.
-/
import Cadastre.Metadata.Function
import Cadastre.Metadata.Schema
import Cadastre.Metadata.Table
import Mathlib.Data.List.Nodup

namespace Cadastre

/-! ### Kinds of records -/

/-- The kinds of records. Those that may stand within a tagged record are read by the
rules of their place. -/
inductive RecordKind where
  | systemInfo
  | dirInfo
  | tableHead
  | columnLife
  | viewSource
  | dataVersion
  | schema
  | column
  | computedValue
  | functionInfo
  | storedFunction
  | signature
  | parameter
  | template
  | columnType (p : Json.Place)
  | expr (p : Json.Place)
  | image (p : Json.Place)
  | array (p : Json.Place)

/-- What is in a field, as far as there are records in it. -/
inductive Content where
  /-- No record. -/
  | plain
  | record (k : RecordKind)
  | items (c : Content)
  /-- A map by column number. -/
  | columns (c : Content)
  | orNull (c : Content)
  /-- A value, which may be an image or an array. -/
  | value (p : Json.Place)

namespace RecordKind

/-- What a record of the kind is read as. -/
def Target : RecordKind → Type
  | systemInfo => SystemInfo
  | dirInfo => DirInfo
  | tableHead => TableHead
  | columnLife => ColumnLife
  | viewSource => ViewSource
  | dataVersion => DataVersion
  | schema => Schema
  | column => Column
  | computedValue => ComputedValue
  | functionInfo => FunctionInfo
  | storedFunction => StoredFunction
  | signature => Signature
  | parameter => Parameter
  | template => ExprTemplate
  | columnType _ => ColumnType
  | expr _ => Expr
  | image _ => Image
  | array _ => NdArray

/-- The reader of the kind. -/
def read? : (k : RecordKind) → Json → Option k.Target
  | systemInfo => (Payload.ofJson? : Json → Option SystemInfo)
  | dirInfo => (Payload.ofJson? : Json → Option DirInfo)
  | tableHead => TableHead.ofJson?
  | columnLife => ColumnLife.ofJson?
  | viewSource => ViewSource.ofJson?
  | dataVersion => DataVersion.ofJson?
  | schema => Schema.ofJson?
  | column => Column.ofJson?
  | computedValue => ComputedValue.ofJson?
  | functionInfo => FunctionInfo.ofJson?
  | storedFunction => StoredFunction.ofJson?
  | signature => Signature.ofJson?
  | parameter => Parameter.ofJson?
  | template => ExprTemplate.ofJson?
  | columnType p => ColumnType.read? p
  | expr p => Expr.read? p
  | image p => Image.read? p
  | array p => NdArray.read? p

end RecordKind

namespace Content

/-- What the content is read as; what is no record stays as it is. -/
def Target : Content → Type
  | plain => Json
  | record k => k.Target
  | items c => List c.Target
  | columns c => SortedMap ColumnId c.Target
  | orNull c => Option c.Target
  | value _ => Value

/-- The reader of the content. -/
def read? : (c : Content) → Json → Option c.Target
  | plain => some
  | record k => k.read?
  | items c => Json.list? c.read?
  | columns c => Json.columnMap? c.read?
  | orNull c => Json.nullable c.read?
  | value p => Value.read? p

end Content

/-! ### Fields -/

/-- A field of a record. -/
structure Field where
  name : String
  content : Content
  /-- Which values are the default, if the field may be missing. -/
  fallback : Option (Json → Prop)

namespace Field

/-- A field that must be there. -/
def required (name : String) (c : Content := .plain) : Field := ⟨name, c, none⟩

/-- A field that may be `null`, which is its default. -/
def optional (name : String) (c : Content := .plain) : Field := ⟨name, .orNull c, some (· = .null)⟩

/-- A field whose default is what reads as `a`. -/
def defaulted {α : Type} (name : String) (c : Content) (read : Json → Option α) (a : α) : Field :=
  ⟨name, c, some fun j => read j = some a⟩

end Field

/-- The fields of the records of a kind. -/
inductive Layout where
  | struct (fields : List Field)
  /-- One field is the tag, and stands first; the others depend on it. -/
  | tagged (p : Json.Place) (tag : String) (cases : List (String × List Field))

/-- The case of a record, which has a name if the record is tagged, and its fields. -/
def Layout.case? : Layout → Json → Option (String × List Field)
  | struct fs, _ => some ("", fs)
  | tagged p tag cases, j => do
    let (s, _) ← j.variant? p tag (cases.map Prod.fst)
    let fs ← cases.lookup s
    some (s, .required tag :: fs)

namespace RecordKind

/-- The fields of a column and of a variable. -/
def namedFields : List Field :=
  [.required "name", .required "col_type" (.record (.columnType .inner))]

/-- The fields of the records. -/
def layout : RecordKind → Layout
  | systemInfo => .struct [.required "schema_version"]
  | dirInfo => .struct [.required "name"]
  | tableHead => .struct [
      .required "name",
      .required "current_version",
      .required "current_schema_version",
      .required "next_col_id",
      .required "next_row_id",
      .defaulted "column_history" (.columns (.record columnLife))
        (Json.columnMap? ColumnLife.ofJson?) .empty,
      .optional "view_md" (.record viewSource)]
  | columnLife => .struct [
      .required "col_id",
      .required "schema_version_add",
      .optional "schema_version_drop"]
  | viewSource => .struct [
      .required "is_snapshot",
      .defaulted "base_versions" .plain (Json.list? ViewSource.baseOfJson?) [],
      .optional "predicate",
      .optional "iterator_class_fqn",
      .optional "iterator_args"]
  | dataVersion => .struct [
      .required "created_at",
      .required "version",
      .required "schema_version"]
  | schema => .struct [
      .required "schema_version",
      .optional "preceding_schema_version",
      .defaulted "columns" (.columns (.record column)) (Json.columnMap? Column.ofJson?) .empty,
      .required "num_retained_versions",
      .defaulted "comment" .plain Json.str? ""]
  | column => .struct [
      .required "pos",
      .required "name",
      .required "col_type" (.record (.columnType .outer)),
      .defaulted "is_pk" .plain Json.bool? false,
      .optional "value_expr" (.record computedValue),
      .optional "stored",
      .defaulted "is_indexed" .plain Json.bool? false]
  | computedValue => .tagged .outer "kind" [
      ("expr", [.required "expr" (.record (.expr .inner))]),
      ("opaque", [.required "tree"])]
  | functionInfo => .struct [
      .optional "name",
      .required "md" (.record storedFunction)]
  | storedFunction => .struct [
      .required "name",
      .required "kind",
      .required "signatures" (.items (.record signature)),
      .optional "batch_size",
      .defaulted "templates" (.items (.record template)) (Json.list? ExprTemplate.ofJson?) []]
  | signature => .struct [
      .required "parameters" (.items (.record parameter)),
      .required "return_type" (.record (.columnType .outer)),
      .defaulted "is_batched" .plain Json.bool? false]
  | parameter => .struct [
      .required "name",
      .required "col_type" (.record (.columnType .outer)),
      .optional "default" (.value .outer),
      .defaulted "is_batched" .plain Json.bool? false]
  | template => .struct [
      .required "signature" (.record signature),
      .required "expr" (.record (.expr .outer))]
  | columnType p => .tagged p "type" [
      ("invalid", []),
      ("string", []),
      ("int", []),
      ("float", []),
      ("bool", []),
      ("timestamp", []),
      ("image", [.optional "width", .optional "height", .optional "mode"]),
      ("dict", []),
      ("array", [
        .optional "shape",
        .defaulted "dtype" .plain (ElementType.read? .inner) .int32])]
  | expr p => .tagged p "kind" [
      ("column", namedFields),
      ("variable", namedFields),
      ("literal", [.required "value" (.value .inner)]),
      ("call", [
        .required "function",
        .defaulted "overload" .plain Json.nat? 0,
        .required "args" (.items (.record (.expr .inner))),
        .required "return_type" (.record (.columnType .inner))])]
  | image _ => .struct [
      .required "width",
      .required "height",
      .required "mode",
      .required "pixels"]
  | array _ => .struct [
      .required "shape",
      .required "dtype",
      .required "data"]

end RecordKind

/-! ### Reading by fields -/

theorem mem_of_lookup {β : Type} {l : List (String × β)} {name : String} {b : β}
    (h : l.lookup name = some b) : (name, b) ∈ l := by
  obtain ⟨l₁, l₂, rfl, _⟩ := List.lookup_eq_some_iff.1 h
  exact List.mem_append_right l₁ List.mem_cons_self

/-- The reader makes of what the content is read as what it reads. -/
def Content.ReadsTo {α : Type} (c : Content) (read : Json → Option α) : Prop :=
  ∃ g : c.Target → Option α, ∀ j, read j = (c.read? j).bind g

namespace Content.ReadsTo

variable {α : Type} {c : Content} {read : Json → Option α} {j j' : Json}

theorem plain : Content.plain.ReadsTo read := ⟨read, fun _ => rfl⟩

theorem self : c.ReadsTo c.read? := ⟨some, fun j => (Option.bind_fun_some (c.read? j)).symm⟩

theorem nullable (h : c.ReadsTo read) : (Content.orNull c).ReadsTo (Json.nullable read) := by
  obtain ⟨g, hg⟩ := h
  refine ⟨fun o => o.elim (some none) fun a => (g a).map some, fun j => ?_⟩
  cases j with
  | null => rfl
  | _ =>
    simp only [Content.read?, Json.nullable, hg]
    cases Content.read? c _ <;> rfl

theorem congr (h : c.ReadsTo read) (hj : c.read? j' = c.read? j) : read j' = read j := by
  obtain ⟨g, hg⟩ := h
  rw [hg, hg, hj]

theorem eq_none (h : c.ReadsTo read) (hj : c.read? j = none) : read j = none := by
  obtain ⟨g, hg⟩ := h
  rw [hg, hj]
  rfl

end Content.ReadsTo

namespace Field

/-- The field is read as the same in both: nothing of it has changed, or what is in it is
read as the same, or it held its default and is missing. -/
inductive Keeps (f : Field) (ms ms' : List (String × Json)) : Prop
  | unchanged (h : ms'.lookup f.name = ms.lookup f.name)
  | edited {j j' : Json} (hj : ms.lookup f.name = some j) (hj' : ms'.lookup f.name = some j')
      (hread : f.content.read? j' = f.content.read? j)
  | dropped {j : Json} {isDefault : Json → Prop} (hf : f.fallback = some isDefault)
      (hj : ms.lookup f.name = some j) (hdefault : isDefault j) (h : ms'.lookup f.name = none)

/-- The field must be there and is missing, or what is in it is not read. -/
inductive Fails (f : Field) (ms : List (String × Json)) : Prop
  | missing (hf : f.fallback = none) (h : ms.lookup f.name = none)
  | unreadable {j : Json} (hj : ms.lookup f.name = some j) (hread : f.content.read? j = none)

variable {α : Type} {f : Field} {ms ms' : List (String × Json)} {read : Json → Option α} {a : α}

/-- A plain field that must be there has what it had. -/
theorem Keeps.lookup_eq {name : String} (h : (required name).Keeps ms ms') :
    ms'.lookup name = ms.lookup name := by
  cases h with
  | unchanged h => exact h
  | edited hj hj' hread => exact hj'.trans (hread.trans hj.symm)
  | dropped hf => cases hf

theorem Keeps.required_eq (h : f.Keeps ms ms') (hf : f.fallback = none)
    (hread : f.content.ReadsTo read) :
    Json.required ms' f.name read = Json.required ms f.name read := by
  rw [Json.required, Json.required]
  cases h with
  | unchanged h => rw [h]
  | edited hj hj' hsame =>
    rw [hj, hj']
    exact hread.congr hsame
  | dropped hfallback =>
    rw [hf] at hfallback
    cases hfallback

theorem Keeps.defaulted_eq (h : f.Keeps ms ms') (hread : f.content.ReadsTo read)
    (hdefault : ∀ isDefault ∈ f.fallback, ∀ j, isDefault j → read j = some a) :
    Json.defaulted ms' f.name read a = Json.defaulted ms f.name read a := by
  rw [Json.defaulted, Json.defaulted]
  cases h with
  | unchanged h => rw [h]
  | edited hj hj' hsame =>
    rw [hj, hj']
    exact hread.congr hsame
  | dropped hf hj hd hmissing =>
    rw [hj, hmissing]
    exact (hdefault _ hf _ hd).symm

theorem Fails.required_eq (h : f.Fails ms) (hread : f.content.ReadsTo read) :
    Json.required ms f.name read = none := by
  rw [Json.required]
  cases h with
  | missing _ h => rw [h]
  | unreadable hj hnone =>
    rw [hj]
    exact hread.eq_none hnone

theorem Fails.defaulted_eq (h : f.Fails ms) (hf : f.fallback ≠ none)
    (hread : f.content.ReadsTo read) : Json.defaulted ms f.name read a = none := by
  rw [Json.defaulted]
  cases h with
  | missing hnone => exact absurd hnone hf
  | unreadable hj hnone =>
    rw [hj]
    exact hread.eq_none hnone

end Field

/-- What is read of the members depends on what the fields are read as, and nothing is if
one of them fails. -/
structure Reads {α : Type} (fs : List Field) (read : List (String × Json) → Option α) : Prop where
  congr {ms ms' : List (String × Json)} (h : ∀ f ∈ fs, f.Keeps ms ms') : read ms' = read ms
  fails {ms : List (String × Json)} {f : Field} (hf : f ∈ fs) (h : f.Fails ms) : read ms = none

namespace Reads

variable {α β : Type} {c : Content} {read : Json → Option α} {fs : List Field}
  {rest : α → List (String × Json) → Option β} {name : String}

theorem done (b : Option β) : Reads [] fun _ => b where
  congr _ := rfl
  fails hf := nomatch hf

theorem cons {f : Field} {readField : List (String × Json) → Option α}
    (hcongr : ∀ ms ms', f.Keeps ms ms' → readField ms' = readField ms)
    (hfails : ∀ ms, f.Fails ms → readField ms = none) (hrest : ∀ a, Reads fs (rest a)) :
    Reads (f :: fs) fun ms => readField ms >>= fun a => rest a ms where
  congr {ms ms'} h := by
    rw [List.forall_mem_cons] at h
    show (readField ms').bind _ = (readField ms).bind _
    rw [hcongr ms ms' h.1]
    exact congrArg _ (funext fun a => (hrest a).congr h.2)
  fails {ms f'} hf h := by
    rcases List.mem_cons.1 hf with rfl | hf
    · rw [hfails ms h]
      rfl
    · cases readField ms with
      | none => rfl
      | some a => exact (hrest a).fails hf h

theorem required (hread : c.ReadsTo read) (hrest : ∀ a, Reads fs (rest a)) :
    Reads (.required name c :: fs) fun ms =>
      Json.required ms name read >>= fun a => rest a ms :=
  cons (fun _ _ h => h.required_eq rfl hread) (fun _ h => h.required_eq hread) hrest

theorem fallback {isDefault : Json → Prop} {a : α} (hread : c.ReadsTo read)
    (hdefault : ∀ j, isDefault j → read j = some a) (hrest : ∀ a, Reads fs (rest a)) :
    Reads (⟨name, c, some isDefault⟩ :: fs) fun ms =>
      Json.defaulted ms name read a >>= fun b => rest b ms := by
  have hdefaults : ∀ d ∈ some isDefault, ∀ j, d j → read j = some a := by
    rintro d ⟨⟩
    exact hdefault
  exact cons (fun _ _ h => h.defaulted_eq hread hdefaults)
    (fun _ h => h.defaulted_eq nofun hread) hrest

theorem defaulted {a : α} (hread : c.ReadsTo read) (hrest : ∀ a, Reads fs (rest a)) :
    Reads (.defaulted name c read a :: fs) fun ms =>
      Json.defaulted ms name read a >>= fun b => rest b ms :=
  fallback hread (fun _ h => h) hrest

theorem optional {rest : Option α → List (String × Json) → Option β} (hread : c.ReadsTo read)
    (hrest : ∀ a, Reads fs (rest a)) :
    Reads (.optional name c :: fs) fun ms =>
      Json.defaulted ms name (Json.nullable read) none >>= fun b => rest b ms :=
  fallback hread.nullable (fun _ h => h ▸ rfl) hrest

theorem map {body : List (String × Json) → Option α} (h : Reads fs body) (g : α → β) :
    Reads fs fun ms => (body ms).map g where
  congr hkeeps := congrArg (Option.map g) (h.congr hkeeps)
  fails hf hfails := by rw [h.fails hf hfails]; rfl

end Reads

/-! ### Readers of records -/

/-- The reader reads records of the layout: none that is of no case, and the others by
their fields. -/
structure Layout.Describes {α : Type} (L : Layout) (read : Json → Option α) : Prop where
  noCase {j : Json} (h : L.case? j = none) : read j = none
  nodup {j : Json} {s : String} {fs : List Field} (h : L.case? j = some (s, fs)) :
    (fs.map Field.name).Nodup
  byFields {j : Json} {s : String} {fs : List Field} (h : L.case? j = some (s, fs)) :
    ∃ body, Reads fs body ∧
      ∀ j', L.case? j' = some (s, fs) → read j' = (j'.members? (fs.map Field.name)).bind body

/-- The reader reads the records of the case by the fields after the tag. -/
def Layout.DescribesCase {α : Type} (p : Json.Place) (tag : String) (names : List String)
    (read : Json → Option α) (c : String × List Field) : Prop :=
  ∃ body, Reads c.2 body ∧ ∀ j r, j.variant? p tag names = some (c.1, r) →
    read j = (r.members? (c.2.map Field.name)).bind body

theorem Layout.DescribesCase.intro {α : Type} {p : Json.Place} {tag : String} {names : List String}
    {read : Json → Option α} {c : String × List Field} {body : List (String × Json) → Option α}
    (hread : ∀ j r, j.variant? p tag names = some (c.1, r) →
      read j = (r.members? (c.2.map Field.name)).bind body) (h : Reads c.2 body) :
    DescribesCase p tag names read c := ⟨body, h, hread⟩

namespace Layout.Describes

variable {α : Type} {read : Json → Option α} {fs : List Field}

theorem struct {body : List (String × Json) → Option α} (hnodup : (fs.map Field.name).Nodup)
    (hread : ∀ j, read j = (j.members? (fs.map Field.name)).bind body) (h : Reads fs body) :
    (Layout.struct fs).Describes read where
  noCase h := nomatch h
  nodup := by
    intro j s fs' hcase
    cases hcase
    exact hnodup
  byFields := by
    intro j s fs' hcase
    cases hcase
    exact ⟨body, h, fun j' _ => hread j'⟩

theorem case?_tagged_eq_some_iff {p : Json.Place} {tag : String}
    {cases : List (String × List Field)} {j : Json} {s : String} :
    (Layout.tagged p tag cases).case? j = some (s, fs) ↔ ∃ r fs',
      j.variant? p tag (cases.map Prod.fst) = some (s, r) ∧ cases.lookup s = some fs' ∧
        fs = .required tag :: fs' := by
  simp only [case?, Option.bind_eq_bind, Option.bind_eq_some_iff, Prod.exists, Option.some.injEq,
    Prod.mk.injEq]
  constructor
  · rintro ⟨_, r, hr, fs', hfs', rfl, rfl⟩
    exact ⟨r, fs', hr, hfs', rfl⟩
  · rintro ⟨r, fs', hr, hfs', rfl⟩
    exact ⟨s, r, hr, fs', hfs', rfl, rfl⟩

/-- The fields of a case after the tag, whether the record is an object or a list. -/
theorem members?_of_variant? {p : Json.Place} {tag s : String} {names : List String} {j r : Json}
    (h : j.variant? p tag names = some (s, r)) {body : List (String × Json) → Option α}
    (hbody : Reads fs body) (htag : tag ∉ fs.map Field.name) :
    (r.members? (fs.map Field.name)).bind body =
      (j.members? (tag :: fs.map Field.name)).bind fun ms =>
        Json.required ms tag (fun _ => some ()) >>= fun _ => body ms := by
  unfold Json.variant? at h
  split at h
  · rename_i ms
    obtain ⟨_, hlookup, heq⟩ := Option.map_eq_some_iff.1 h
    obtain ⟨t, ht, _⟩ := Option.bind_eq_some_iff.1 hlookup
    cases heq
    show body ms = Json.required ms tag _ >>= _
    rw [Json.required, ht]
    rfl
  · rename_i t items
    obtain ⟨_, _, heq⟩ := Option.map_eq_some_iff.1 h
    cases heq
    simp only [Json.members?, List.length_cons, Nat.add_le_add_iff_right]
    split
    · simp only [Option.bind_some, List.zip_cons_cons, Json.required_cons_self, Option.bind_eq_bind]
      -- the tag is no field of the case
      refine (hbody.congr fun f hf => .unchanged ?_).symm
      have hne : f.name ≠ tag := fun heq => htag (heq ▸ List.mem_map_of_mem hf)
      exact Json.lookup_cons_of_ne hne
    · rfl
  · cases h

theorem tagged {p : Json.Place} {tag : String} {cases : List (String × List Field)}
    (hnone : ∀ j, j.variant? p tag (cases.map Prod.fst) = none → read j = none)
    (hother : ∀ j s r, s ∉ cases.map Prod.fst →
      j.variant? p tag (cases.map Prod.fst) = some (s, r) → read j = none)
    (hnodup : ∀ c ∈ cases, (tag :: c.2.map Field.name).Nodup)
    (hcases : ∀ c ∈ cases, DescribesCase p tag (cases.map Prod.fst) read c) :
    (Layout.tagged p tag cases).Describes read where
  noCase := by
    intro j h
    cases hvariant : j.variant? p tag (cases.map Prod.fst) with
    | none => exact hnone j hvariant
    | some c =>
      obtain ⟨s, r⟩ := c
      refine hother j s r (fun hmem => ?_) hvariant
      obtain ⟨c, hc, rfl⟩ := List.mem_map.1 hmem
      have hlookup : cases.lookup c.1 ≠ none := by
        rw [Ne, List.lookup_eq_none_iff]
        exact fun hnone => by simpa using hnone c hc
      obtain ⟨fs', hfs'⟩ := Option.ne_none_iff_exists'.1 hlookup
      have hsome := case?_tagged_eq_some_iff.2 ⟨r, fs', hvariant, hfs', rfl⟩
      rw [h] at hsome
      cases hsome
  nodup := by
    intro j s fs hcase
    obtain ⟨r, fs', _, hlookup, rfl⟩ := case?_tagged_eq_some_iff.1 hcase
    exact hnodup _ (mem_of_lookup hlookup)
  byFields := by
    intro j s fs hcase
    obtain ⟨r, fs', _, hlookup, rfl⟩ := case?_tagged_eq_some_iff.1 hcase
    have hmem := mem_of_lookup hlookup
    obtain ⟨body, hbody, hread⟩ := hcases _ hmem
    refine ⟨_, .required (.plain : Content.plain.ReadsTo fun _ => some ()) fun _ => hbody,
      fun j' hcase' => ?_⟩
    obtain ⟨r', _, hvariant, _, _⟩ := case?_tagged_eq_some_iff.1 hcase'
    have htag := (List.nodup_cons.1 (hnodup _ hmem)).1
    exact (hread j' r' hvariant).trans (members?_of_variant? hvariant hbody htag)

end Layout.Describes

/-! ### Expressions -/

namespace Expr

theorem argsOfList?_eq (js : List Json) : argsOfList? js = Json.readAll (read? .inner) js := by
  induction js with
  | nil => rw [argsOfList?, Json.readAll]
  | cons j js ih =>
    rw [argsOfList?, Json.readAll, ih]
    cases read? .inner j <;> cases Json.readAll (read? .inner) js <;> rfl

theorem argsOfJson?_eq (j : Json) : argsOfJson? j = Json.list? (read? .inner) j := by
  cases j <;> simp [argsOfJson?, Json.list?, argsOfList?_eq]

theorem argsOfMembers?_eq (ms : List (String × Json)) :
    argsOfMembers? ms = Json.required ms "args" (Json.list? (read? .inner)) := by
  induction ms with
  | nil => rw [argsOfMembers?, Json.required, List.lookup_nil]
  | cons m ms ih =>
    obtain ⟨name, j⟩ := m
    rw [argsOfMembers?]
    split
    · rename_i hname
      rw [hname, Json.required_cons_self, argsOfJson?_eq]
    · rename_i hname
      rw [Json.required_cons_of_ne (Ne.symm hname), ih]

/-- The call of the fields. -/
def callFields? (record : Json) : Option Expr := do
  let ms ← record.members? ["function", "overload", "args", "return_type"]
  let f ← Json.required ms "function" FunctionRef.ofJson?
  let i ← Json.defaulted ms "overload" Json.nat? 0
  let args ← Json.required ms "args" (Json.list? (read? .inner))
  let t ← Json.required ms "return_type" (ColumnType.read? .inner)
  some (call f i args t)

/-- The expression of a kind. -/
def case? (kind : String) (record : Json) : Option Expr :=
  if kind = "call" then callFields? record else leaf? kind record

theorem case?_eq_none {kind : String} {record : Json} (h : kind ∉ kinds) :
    case? kind record = none := by
  simp only [kinds, List.mem_cons, List.not_mem_nil, or_false, not_or] at h
  simp [case?, leaf?, h]

/-- A call that is a list has all of its fields. -/
theorem callFields?_of_length {items : List Json} (h : items.length ≠ 4) :
    callFields? (.arr items) = none := by
  rcases items with - | ⟨f, - | ⟨i, - | ⟨args, - | ⟨t, - | ⟨j, items⟩⟩⟩⟩⟩ <;>
    simp_all [callFields?, Json.members?, Json.required]

/-- No other expression has as many fields as a call. -/
theorem leaf?_of_length {kind : String} {items : List Json} (h : items.length = 4) :
    leaf? kind (.arr items) = none := by
  unfold leaf?
  split <;> simp [namedFields?, literalField?, Json.members?, h]

/-- An expression is read as any tagged record, its arguments in a list. -/
theorem read?_eq (p : Json.Place) (j : Json) :
    read? p j = (j.variant? p "kind" kinds).bind fun c => case? c.1 c.2 := by
  unfold read?
  split
  · rename_i ms
    simp only [Json.variant?]
    cases (ms.lookup "kind").bind (Json.tag? p kinds) with
    | none => rfl
    | some kind =>
      by_cases hcall : kind = "call"
      · subst hcall
        simp [case?, callFields?, Json.members?, argsOfMembers?_eq]
      · simp [case?, hcall]
  · rename_i kind f i args t
    simp only [Json.variant?]
    cases Json.tag? p kinds kind with
    | none => rfl
    | some kind =>
      by_cases hcall : kind = "call"
      · subst hcall
        simp [case?, callFields?, Json.members?, argsOfJson?_eq]
      · simp [case?, hcall, leaf?_of_length]
  · rename_i kind items hlong
    simp only [Json.variant?]
    cases Json.tag? p kinds kind with
    | none => rfl
    | some kind =>
      by_cases hcall : kind = "call"
      · subst hcall
        have hlength : items.length ≠ 4 := by
          intro hlength
          obtain ⟨f, i, args, t, rfl⟩ := List.length_eq_four.1 hlength
          exact hlong f i args t rfl
        simp [case?, callFields?_of_length hlength, leaf?]
      · simp [case?, hcall]
  · rename_i hobj hlong harr
    cases j with
    | obj ms => exact absurd rfl (hobj ms)
    | arr items =>
      cases items with
      | nil => rfl
      | cons kind items => exact absurd rfl (harr kind items)
    | _ => rfl

end Expr

/-! ### All kinds -/

namespace RecordKind

theorem describes_computedValue : computedValue.layout.Describes computedValue.read? := by
  refine .tagged (fun j h => ?_) (fun j s r hs h => ?_) (by decide) ?_
  · show ComputedValue.ofJson? j = none
    rw [ComputedValue.ofJson?, show j.variant? .outer "kind" ["expr", "opaque"] = none from h]
  · show ComputedValue.ofJson? j = none
    rw [ComputedValue.ofJson?,
      show j.variant? .outer "kind" ["expr", "opaque"] = some (s, r) from h]
    split <;> simp_all
  · rw [List.forall_mem_cons, List.forall_mem_singleton]
    constructor <;> apply Layout.DescribesCase.intro
    case left.hread | right.hread =>
      intro j r h
      show ComputedValue.ofJson? j = _
      rw [ComputedValue.ofJson?,
        show j.variant? .outer "kind" ["expr", "opaque"] = some (_, r) from h]
      rfl
    case left.h => exact .required .self fun _ => .done _
    case right.h => exact .required .plain fun _ => .done _

theorem describes_columnType (p : Json.Place) :
    (columnType p).layout.Describes (columnType p).read? := by
  have flat {s : String} (t : ColumnType) (hs : ∀ j r,
      j.variant? p "type" ColumnType.kinds = some (s, r) →
        ColumnType.read? p j = ColumnType.ofFlatRecord? r t) :
      Layout.DescribesCase p "type" ColumnType.kinds (columnType p).read? (s, []) :=
    ⟨_, .done (some t), fun j r h => (hs j r h).trans Option.map_eq_bind⟩
  refine .tagged (fun j h => ?_) (fun j s r hs h => ?_) (by decide) ?_
  · show ColumnType.read? p j = none
    rw [ColumnType.read?, show j.variant? p "type" ColumnType.kinds = none from h]
  · show ColumnType.read? p j = none
    rw [ColumnType.read?, show j.variant? p "type" ColumnType.kinds = some (s, r) from h]
    split <;> simp_all
  · simp only [List.forall_mem_cons]
    refine ⟨flat .invalid ?_, flat .string ?_, flat .int ?_, flat .float ?_, flat .bool ?_,
      flat .timestamp ?_, ?image, flat .dict ?_, ?array, List.forall_mem_nil _⟩
    case image =>
      apply Layout.DescribesCase.intro
      · intro j r h
        show ColumnType.read? p j = _
        rw [ColumnType.read?, show j.variant? p "type" ColumnType.kinds = some (_, r) from h]
        rfl
      · exact .optional .plain fun _ => .optional .plain fun _ => .optional .plain fun _ => .done _
    case array =>
      apply Layout.DescribesCase.intro
      · intro j r h
        show ColumnType.read? p j = _
        rw [ColumnType.read?, show j.variant? p "type" ColumnType.kinds = some (_, r) from h]
        rfl
      · exact .optional .plain fun _ => .defaulted .plain fun _ => .done _
    all_goals
      intro j r h
      rw [ColumnType.read?, h]
      rfl

theorem describes_expr (p : Json.Place) : (expr p).layout.Describes (expr p).read? := by
  have read {j r : Json} {kind : String} (h : j.variant? p "kind" Expr.kinds = some (kind, r)) :
      (expr p).read? j = Expr.case? kind r := by
    show Expr.read? p j = _
    rw [Expr.read?_eq, h]
    rfl
  have named {g : String × ColumnType → Expr} {kind : String}
      (hkind : ∀ r, Expr.case? kind r = (Expr.namedFields? r).map g) :
      Layout.DescribesCase p "kind" Expr.kinds (expr p).read? (kind, namedFields) :=
    .intro (fun j r h => (read h).trans ((hkind r).trans Option.map_bind)) <|
      .map (.required .plain fun _ => .required .self fun _ => .done _) g
  refine .tagged (fun j h => ?_) (fun j s r hs h => ?_) (by decide) ?_
  · show Expr.read? p j = none
    rw [Expr.read?_eq, show j.variant? p "kind" Expr.kinds = none from h]
    rfl
  · exact (read h).trans (Expr.case?_eq_none hs)
  · simp only [List.forall_mem_cons]
    refine ⟨named fun _ => rfl, named fun _ => rfl, ?literal, ?call, List.forall_mem_nil _⟩
    case literal =>
      have hvalue (r : Json) : Expr.literalField? r = (r.members? ["value"]).bind fun ms =>
          Json.required ms "value" (Value.read? .inner) >>= fun v => some v := by
        simp [Expr.literalField?]
      have hreads : Reads [.required "value" (.value .inner)] fun ms =>
          Json.required ms "value" (Value.read? .inner) >>= fun v => some v :=
        .required .self fun v => .done (some v)
      refine .intro (fun j r h => (read h).trans ?_) (hreads.map Expr.literal)
      exact (congrArg (Option.map Expr.literal) (hvalue r)).trans Option.map_bind
    case call =>
      exact .intro (fun j r h => read h) <|
        .required .plain fun _ => .defaulted .plain fun _ => .required .self fun _ =>
        .required .self fun _ => .done _

/-- Each kind of record is read by its fields. -/
theorem describes : ∀ k : RecordKind, k.layout.Describes k.read?
  | systemInfo => .struct (by decide) (fun _ => rfl) <|
      .required .plain fun _ => .done _
  | dirInfo => .struct (by decide) (fun _ => rfl) <|
      .required .plain fun _ => .done _
  | tableHead => .struct (by decide) (fun _ => rfl) <|
      .required .plain fun _ => .required .plain fun _ => .required .plain fun _ =>
      .required .plain fun _ => .required .plain fun _ => .defaulted .self fun _ =>
      .optional .self fun _ => .done _
  | columnLife => .struct (by decide) (fun _ => rfl) <|
      .required .plain fun _ => .required .plain fun _ => .optional .plain fun _ => .done _
  | viewSource => .struct (by decide) (fun _ => rfl) <|
      .required .plain fun _ => .defaulted .plain fun _ => .optional .plain fun _ =>
      .optional .plain fun _ => .optional .plain fun _ => .done _
  | dataVersion => .struct (by decide) (fun _ => rfl) <|
      .required .plain fun _ => .required .plain fun _ => .required .plain fun _ => .done _
  | schema => .struct (by decide) (fun _ => rfl) <|
      .required .plain fun _ => .optional .plain fun _ => .defaulted .self fun _ =>
      .required .plain fun _ => .defaulted .plain fun _ => .done _
  | column => .struct (by decide) (fun _ => rfl) <|
      .required .plain fun _ => .required .plain fun _ => .required .self fun _ =>
      .defaulted .plain fun _ => .optional .self fun _ => .optional .plain fun _ =>
      .defaulted .plain fun _ => .done _
  | computedValue => describes_computedValue
  | functionInfo => .struct (by decide) (fun _ => rfl) <|
      .optional .plain fun _ => .required .self fun _ => .done _
  | storedFunction => .struct (by decide) (fun _ => rfl) <|
      .required .plain fun _ => .required .plain fun _ => .required .self fun _ =>
      .optional .plain fun _ => .defaulted .self fun _ => .done _
  | signature => .struct (by decide) (fun _ => rfl) <|
      .required .self fun _ => .required .self fun _ => .defaulted .plain fun _ => .done _
  | parameter => .struct (by decide) (fun _ => rfl) <|
      .required .plain fun _ => .required .self fun _ => .optional .self fun _ =>
      .defaulted .plain fun _ => .done _
  | template => .struct (by decide) (fun _ => rfl) <|
      .required .self fun _ => .required .self fun _ => .done _
  | columnType p => describes_columnType p
  | expr p => describes_expr p
  | image p => .struct (by decide) (fun _ => rfl) <|
      .required .plain fun _ => .required .plain fun _ => .required .plain fun _ =>
      .required .plain fun _ => .done _
  | array p => .struct (by decide) (fun _ => rfl) <|
      .required .plain fun _ => .required .plain fun _ => .required .plain fun _ => .done _

end RecordKind

end Cadastre
