/-
# Stored functions are read back from their records

A function whose literals are numbers is read back from its record: the
defaults of its parameters and the bodies of its templates are values and
expressions, and the rest is names, types and counts. What is read passes the
rule of its kind exactly if the function has signatures and a template has an
expression for each.

Key definitions: `Signature.isFinite`, `StoredFunction.isFinite`,
`StoredFunction.Sound`.
Key theorems: `StoredFunction.ofJson?_toJson`, `FunctionInfo.flaw?_eq_none_iff`,
`FunctionInfo.decode_toJson`.
-/
import Cadastre.Metadata.Function
import Cadastre.Proofs.RoundTrip.Expr

namespace Cadastre

/-! ### Signatures and templates -/

/-- The default of a parameter is a number, if it is a float. -/
def Parameter.isFinite (p : Parameter) : Bool := p.default.all Value.isFinite

/-- The defaults of the parameters are numbers. -/
def Signature.isFinite (s : Signature) : Bool := s.parameters.all Parameter.isFinite

/-- The literals of a template are numbers. -/
def ExprTemplate.isFinite (t : ExprTemplate) : Bool := t.signature.isFinite && t.body.isFinite

theorem Value.toJson_ne_null (v : Value) : v.toJson ≠ .null := by
  cases v <;> exact nofun

theorem Parameter.ofJson?_toJson {p : Parameter} (h : p.isFinite = true) :
    ofJson? p.toJson = some p := by
  have hdefault : Json.nullable Value.ofJson? (.ofOption Value.toJson p.default) =
      some p.default := by
    refine Json.nullable_ofOption Value.toJson_ne_null fun v hv => ?_
    rw [isFinite, Option.mem_def.1 hv] at h
    exact Value.read?_toJson .outer h
  have htype : ColumnType.ofJson? p.type.toJson = some p.type := p.type.read?_toJson .outer
  simp [ofJson?, toJson, Json.members?, Json.str?, Json.bool?, hdefault, htype]

theorem Signature.ofJson?_toJson {s : Signature} (h : s.isFinite = true) :
    ofJson? s.toJson = some s := by
  have hparameters : Json.list? Parameter.ofJson? (.ofList Parameter.toJson s.parameters) =
      some s.parameters :=
    Json.list?_ofList fun p hp => Parameter.ofJson?_toJson (List.all_eq_true.1 h p hp)
  have htype : ColumnType.ofJson? s.returnType.toJson = some s.returnType :=
    s.returnType.read?_toJson .outer
  simp [ofJson?, toJson, Json.members?, Json.bool?, hparameters, htype]

theorem ExprTemplate.ofJson?_toJson {t : ExprTemplate} (h : t.isFinite = true) :
    ofJson? t.toJson = some t := by
  obtain ⟨hsignature, hbody⟩ := Bool.and_eq_true_iff.1 h
  have hbody : Expr.ofJson? t.body.toJson = some t.body := Expr.read?_toJson .outer hbody
  simp [ofJson?, toJson, Json.members?, Signature.ofJson?_toJson hsignature, hbody]

/-! ### Functions -/

theorem StoredKind.ofJson?_toJson (k : StoredKind) : ofJson? k.toJson = some k := by
  cases k <;> rfl

namespace StoredFunction

/-- The literals of a stored function are numbers. -/
def isFinite (f : StoredFunction) : Bool :=
  f.signatures.all Signature.isFinite && f.templates.all ExprTemplate.isFinite

/-- What the rule of a stored function asks for. -/
structure Sound (f : StoredFunction) : Prop where
  signatures : f.signatures ≠ []
  templates : f.kind = .template → f.templates.length = f.signatures.length

theorem ofJson?_toJson {f : StoredFunction} (h : f.isFinite = true) :
    ofJson? f.toJson = some f := by
  obtain ⟨hsignatures, htemplates⟩ := Bool.and_eq_true_iff.1 h
  have hsignatures : Json.list? Signature.ofJson? (.ofList Signature.toJson f.signatures) =
      some f.signatures :=
    Json.list?_ofList fun s hs => Signature.ofJson?_toJson (List.all_eq_true.1 hsignatures s hs)
  have htemplates : Json.list? ExprTemplate.ofJson? (.ofList ExprTemplate.toJson f.templates) =
      some f.templates :=
    Json.list?_ofList fun t ht => ExprTemplate.ofJson?_toJson (List.all_eq_true.1 htemplates t ht)
  have hbatch : Json.nullable Json.nat? (.ofOption .ofNat f.batchSize) = some f.batchSize :=
    Json.nullable_ofOption (fun _ => nofun) fun _ _ => rfl
  simp [ofJson?, toJson, Json.members?, Json.str?, StoredKind.ofJson?_toJson, hsignatures,
    htemplates, hbatch]

end StoredFunction

namespace FunctionInfo

theorem ofJson?_toJson {i : FunctionInfo} (h : i.function.isFinite = true) :
    ofJson? i.toJson = some i := by
  have hname : Json.nullable Json.str? (.ofOption .str i.name) = some i.name :=
    Json.nullable_ofOption (fun _ => nofun) fun _ _ => rfl
  simp [ofJson?, toJson, Json.members?, StoredFunction.ofJson?_toJson h, hname]

/-- The rule is passed by the sound functions, and by no other. -/
theorem flaw?_eq_none_iff {i : FunctionInfo} : i.flaw? = none ↔ i.function.Sound := by
  have hempty : i.function.signatures.isEmpty = true ↔ i.function.signatures = [] :=
    List.isEmpty_iff
  rw [flaw?]
  constructor
  · intro h
    split at h
    · cases h
    · rename_i hsignatures
      split at h
      · cases h
      · rename_i htemplates
        refine ⟨fun hnil => hsignatures (hempty.2 hnil), fun hkind => ?_⟩
        by_contra hlength
        exact htemplates ⟨hkind, hlength⟩
  · intro h
    rw [if_neg fun hnil => h.signatures (hempty.1 hnil),
      if_neg fun htemplates => htemplates.2 (h.templates htemplates.1)]

/-- A sound function is read back from its record. -/
theorem decode_toJson {i : FunctionInfo} {key : Key} (hf : i.function.isFinite = true)
    (hs : i.function.Sound) : Payload.decode key i.toJson = .ok i :=
  Payload.decode_toJson (ofJson?_toJson hf) (flaw?_eq_none_iff.2 hs)

end FunctionInfo
end Cadastre
