import Mathlib.Data.List.Perm.Basic
import Mathlib.Data.List.Nodup
import SyntaxTree.Proofs.Documents
import SyntaxTree.Proofs.Quoting
import SyntaxTree.Script.Basic

/-!
# Every rendition of a script is read as that script

A script may be written in many ways: as an object or as an array, its calls as objects or as arrays, the members of an
object in any order and without those that say nothing, strings with any escapes, and with blanks everywhere. What may
be left out, and in which order an array gives its items, is said once, by the list of a call's fields (`Call.fields`);
an object of them is any arrangement of the fields without some that may be left out (`Renders`).

That the reader finds the script again (`parse?_of_rendition`) is shown in two steps. The reader of members finds the
value of each field, or that it was left out (`Renders.exists_reads`), and the reader of calls makes of that the call
(`Call.ofFields?_fields`).
-/

namespace SyntaxTree

/-! ## Values of fields -/

namespace Json

/-- A 32-bit word, in decimal digits. -/
def ofWord (word : UInt32) : Json :=
  .number ⟨false, Nat.toDigits 10 word.toNat, [], none⟩

def ofText (text : String) : Json :=
  .string (some text)

def ofTexts (texts : List String) : Json :=
  .array (texts.map ofText)

/-- A value that may be missing. -/
def ofNullable {α : Type} (write : α → Json) : Option α → Json
  | none => .null
  | some value => write value

/-- The digits of a number spell it. -/
theorem digitsValue_toDigits (n : Nat) : digitsValue (Nat.toDigits 10 n) = n := by
  have hvalue := Nat.ofDigitChars_ten_toDigits (n := n)
  rw [Nat.ofDigitChars_eq_foldl] at hvalue
  exact hvalue

theorem word?_ofWord (word : UInt32) : (ofWord word).word? = some word := by
  have hvalue := digitsValue_toDigits word.toNat
  simp [ofWord, word?, Number.word?, hvalue, UInt32.toNat_lt_size]

theorem texts?_ofTexts (texts : List String) : (ofTexts texts).texts? = some texts := by
  rw [ofTexts, Json.texts?]
  induction texts with
  | nil => rfl
  | cons text texts ih =>
    rw [List.map_cons, List.mapM_cons, ih]
    rfl

theorem le_foldl_digits (digits : List Char) (n : Nat) :
    n ≤ digits.foldl (fun n c => 10 * n + digitValue c) n := by
  induction digits generalizing n with
  | nil => exact Nat.le_refl n
  | cons digit digits ih =>
    have hmore := ih (10 * n + digitValue digit)
    rw [List.foldl_cons]
    omega

/-- Digits of a number that fits into 64 bits are all kept. -/
theorem appendDigits_eq {digits : List Char} {significand : Nat}
    (h : digits.foldl (fun n c => 10 * n + digitValue c) significand < UInt64.size) :
    appendDigits significand digits = (digits.foldl (fun n c => 10 * n + digitValue c) significand, 0) := by
  induction digits generalizing significand with
  | nil => rfl
  | cons digit digits ih =>
    rw [List.foldl_cons] at h ⊢
    have hle := le_foldl_digits digits (10 * significand + digitValue digit)
    rw [appendDigits, if_pos (Nat.lt_of_le_of_lt hle h), ih h]

/-- The limit is far above 32 bits. Its powers are not computed. -/
theorem belowDoubleLimit_of_lt {n : Nat} (h : n < UInt32.size) : belowDoubleLimit n = true := by
  have hlimit : ∀ low high, high = 54 + low → n < Nat.pow 2 high - Nat.pow 2 low := by
    rintro low high rfl
    have hpower : Nat.pow 2 (54 + low) = 2 ^ 54 * Nat.pow 2 low := Nat.pow_add 2 54 low
    have hpos : 0 < Nat.pow 2 low := Nat.two_pow_pos low
    have hsize : UInt32.size = 2 ^ 32 := rfl
    omega
  exact decide_eq_true (hlimit 970 1024 rfl)

/-- A number of at most 53 bits is a double. -/
theorem roundToDouble_eq {n : Nat} (h : n < Nat.pow 2 53) : roundToDouble n = n := by
  have hlog : n.log2 - 52 = 0 := by
    rcases Nat.eq_zero_or_pos n with rfl | hpos
    · rfl
    · have hlt := (Nat.log2_lt (Nat.ne_of_gt hpos)).2 h
      omega
  simp [roundToDouble, hlog, Nat.mod_one]

theorem isFinite_ofWord (word : UInt32) :
    (⟨false, Nat.toDigits 10 word.toNat, [], none⟩ : Number).isFinite = true := by
  have hvalue := digitsValue_toDigits word.toNat
  have hlt := UInt32.toNat_lt_size word
  have hsize : UInt32.size < UInt64.size := by decide
  have hdigits : appendDigits 0 (Nat.toDigits 10 word.toNat) = (word.toNat, 0) := by
    rw [digitsValue] at hvalue
    rw [appendDigits_eq (by rw [hvalue]; omega), hvalue]
  have hscaled : (⟨false, Nat.toDigits 10 word.toNat, [], none⟩ : Number).scaled = (word.toNat, .ofNat 0) := by
    rw [Number.scaled, hdigits]
    rfl
  have hword : roundToDouble word.toNat = word.toNat := roundToDouble_eq (Nat.lt_trans hlt (by decide))
  have hone : roundToDouble (Nat.pow 10 0) = 1 := roundToDouble_eq (by decide)
  rw [Number.isFinite, hscaled]
  simp only [Nat.zero_le, if_true, hword, hone, Nat.mul_one, belowDoubleLimit_of_lt hlt]

theorem nullable?_ofNullable {α : Type} {read : Json → Option α} {write : α → Json}
    (hread : ∀ value, read (write value) = some value) (hwrite : ∀ value, write value ≠ .null) (value : Option α) :
    nullable? read (ofNullable write value) = some value := by
  cases value with
  | none => rfl
  | some value =>
    rw [ofNullable, nullable?, hread]
    · rfl
    · exact hwrite value

end Json

/-! ## Fields -/

/-- A field of an object: its name, how its value is written, and whether it says nothing and may be left out. -/
structure Field where
  name : String
  value : Json
  omittable : Bool

/-- The members are the fields in some order, some of those that may be left out being left out. -/
def Renders (fields : List Field) (members : List (String × Json)) : Prop :=
  ∃ kept : List Field, kept.Sublist fields ∧ (∀ field ∈ fields, field ∉ kept → field.omittable = true) ∧
    members.Perm (kept.map fun field => (field.name, field.value))

/-- The members of an object whose names all spell text. -/
def Json.ofMembers (members : List (String × Json)) : Json :=
  .object (members.map fun (name, value) => (some name, value))

/-- What a reader may find of a field: its value, or nothing if it may be left out. -/
def Field.Reads (field : Field) (found : Option Json) : Prop :=
  found = some field.value ∨ field.omittable = true ∧ found = none

theorem named?_map (members : List (String × Json)) :
    Json.named? (members.map fun (name, value) => (some name, value)) = some members := by
  rw [Json.named?]
  induction members with
  | nil => rfl
  | cons member members ih =>
    rw [List.map_cons, List.mapM_cons, ih]
    rfl

theorem filter_name_of_not_mem {fields : List Field} {name : String} (h : name ∉ fields.map Field.name) :
    (fields.map fun field => (field.name, field.value)).filter (·.1 == name) = [] := by
  simp only [List.filter_eq_nil_iff, List.mem_map, beq_iff_eq]
  rintro _ ⟨field, hfield, rfl⟩ rfl
  exact h (List.mem_map_of_mem hfield)

/-- Among fields with different names, one is found by its name. -/
theorem filter_name_of_mem {fields : List Field} (hnodup : (fields.map Field.name).Nodup) {field : Field}
    (hmem : field ∈ fields) : (fields.map fun field => (field.name, field.value)).filter (·.1 == field.name)
      = [(field.name, field.value)] := by
  induction fields with
  | nil => cases hmem
  | cons first fields ih =>
    rw [List.map_cons, List.nodup_cons] at hnodup
    rcases List.mem_cons.1 hmem with rfl | hmem
    · rw [List.map_cons, List.filter_cons_of_pos (by simp), filter_name_of_not_mem hnodup.1]
    · have hne : first.name ≠ field.name := fun he => hnodup.1 (he ▸ List.mem_map_of_mem hmem)
      rw [List.map_cons, List.filter_cons_of_neg (by simpa using hne), ih hnodup.2 hmem]

/-- The reader of members finds of each field its value, unless it was left out. -/
theorem Renders.member? {fields : List Field} {members : List (String × Json)} (h : Renders fields members)
    (hnodup : (fields.map Field.name).Nodup) {field : Field} (hmem : field ∈ fields) :
    ∃ found, Json.member? field.name members = some found ∧ field.Reads found := by
  obtain ⟨kept, hsub, homitted, hperm⟩ := h
  have hfilter := hperm.filter (·.1 == field.name)
  by_cases hkept : field ∈ kept
  · rw [filter_name_of_mem (hnodup.sublist (hsub.map Field.name)) hkept, List.perm_singleton] at hfilter
    exact ⟨some field.value, by rw [Json.member?, hfilter], .inl rfl⟩
  · have hname : field.name ∉ kept.map Field.name := by
      intro hname
      obtain ⟨other, hother, he⟩ := List.mem_map.1 hname
      rw [List.inj_on_of_nodup_map hnodup (hsub.subset hother) hmem he] at hother
      exact hkept hother
    rw [filter_name_of_not_mem hname, List.perm_nil] at hfilter
    exact ⟨none, by rw [Json.member?, hfilter], .inr ⟨homitted field hmem hkept, rfl⟩⟩

/-- The same for all fields in their order. -/
theorem exists_reads {names : List Field} {members : List (String × Json)}
    (h : ∀ field ∈ names, ∃ found, Json.member? field.name members = some found ∧ field.Reads found) :
    ∃ reads, (names.map Field.name).mapM (fun name => Json.member? name members) = some reads ∧
      List.Forall₂ Field.Reads names reads := by
  induction names with
  | nil => exact ⟨[], rfl, .nil⟩
  | cons field names ih =>
    obtain ⟨hfield, hnames⟩ := List.forall_mem_cons.1 h
    obtain ⟨found, hfound, hread⟩ := hfield
    obtain ⟨reads, hreads, hall⟩ := ih hnames
    refine ⟨found :: reads, ?_, .cons hread hall⟩
    rw [List.map_cons, List.mapM_cons, hfound, hreads]
    rfl

theorem required?_of_reads {α : Type} {read : Json → Option α} {name : String} {value : Json} {found : Option Json}
    {result : α} (h : (⟨name, value, false⟩ : Field).Reads found) (hread : read value = some result) :
    required? read found = some result := by
  rcases h with rfl | ⟨hfalse, -⟩
  · exact hread
  · cases hfalse

theorem optional?_of_reads {α : Type} {read : Json → Option α} {write : α → Json} {name : String} {found : Option Json}
    {result : Option α} (h : (⟨name, .ofNullable write result, result.isNone⟩ : Field).Reads found)
    (hread : ∀ value, read (write value) = some value) (hwrite : ∀ value, write value ≠ .null) :
    optional? read found = some result := by
  rcases h with rfl | ⟨hnone, rfl⟩
  · exact Json.nullable?_ofNullable hread hwrite result
  · rw [Option.isNone_iff_eq_none.1 hnone]
    rfl

theorem defaulted?_of_reads {α : Type} {read : Json → Option α} {name : String} {value : Json} {omittable : Bool}
    {found : Option Json} {default result : α} (h : (⟨name, value, omittable⟩ : Field).Reads found)
    (hread : read value = some result) (hdefault : omittable = true → result = default) :
    defaulted? default read found = some result := by
  rcases h with rfl | ⟨homittable, rfl⟩
  · exact hread
  · rw [hdefault homittable]
    rfl

/-! ## Calls -/

namespace Operation

/-- The name of a kind of call in a script. -/
def name : Operation → String
  | composite => "composite"
  | leaf => "leaf"
  | addChild => "add_child"
  | associate => "associate"
  | wrap => "wrap"
  | error => "error"
  | compress => "compress"

theorem ofName?_name (operation : Operation) : ofName? operation.name = some operation := by
  cases operation <;> rfl

end Operation

namespace Call

/-- The kind of a call. -/
def operation : Call → Operation
  | composite .. => .composite
  | leaf .. => .leaf
  | addChild .. => .addChild
  | associate .. => .associate
  | wrap .. => .wrap
  | error .. => .error
  | compress .. => .compress

/-- The fields of a call in their order. What is missing, zero, false or empty may be left out, if it is an option or
has a default. -/
def fields : Call → List Field
  | composite grammar lookahead parent =>
    [⟨"grammar", .ofNullable .ofText grammar, grammar.isNone⟩, ⟨"lookahead", .ofWord lookahead, lookahead == 0⟩,
      ⟨"parent", .ofNullable .ofWord parent, parent.isNone⟩]
  | leaf offset length grammar hidden errorText parent =>
    [⟨"offset", .ofWord offset, false⟩, ⟨"length", .ofWord length, false⟩,
      ⟨"grammar", .ofNullable .ofText grammar, grammar.isNone⟩, ⟨"hidden", .boolean hidden, !hidden⟩,
      ⟨"error", .ofNullable .ofText errorText, errorText.isNone⟩, ⟨"parent", .ofWord parent, false⟩]
  | addChild parent child => [⟨"parent", .ofWord parent, false⟩, ⟨"child", .ofWord child, false⟩]
  | associate node element => [⟨"node", .ofWord node, false⟩, ⟨"element", .ofWord element, false⟩]
  | wrap grammar lookahead node =>
    [⟨"grammar", .ofNullable .ofText grammar, grammar.isNone⟩, ⟨"lookahead", .ofWord lookahead, lookahead == 0⟩,
      ⟨"node", .ofWord node, false⟩]
  | error node message issueCode issueData =>
    [⟨"node", .ofWord node, false⟩, ⟨"message", .ofText message, false⟩,
      ⟨"issue_code", .ofNullable .ofText issueCode, issueCode.isNone⟩,
      ⟨"issue_data", .ofTexts issueData, issueData.isEmpty⟩]
  | compress node => [⟨"node", .ofWord node, false⟩]

variable {call : Call}

theorem map_name_fields (call : Call) : call.fields.map Field.name = call.operation.fieldNames := by
  cases call <;> rfl

theorem nodup_names (operation : Operation) : ("op" :: operation.fieldNames).Nodup := by
  cases operation <;> decide

/-- From what a reader finds of its fields, the call comes back. -/
theorem ofFields?_of_reads {reads : List (Option Json)} (h : List.Forall₂ Field.Reads call.fields reads) :
    ofFields? call.operation reads = some call := by
  have htext : ∀ text, (Json.ofText text).text? = some text := fun _ => rfl
  have htext' : ∀ text, Json.ofText text ≠ .null := nofun
  have hword' : ∀ word, Json.ofWord word ≠ .null := nofun
  cases call with
  | composite grammar lookahead parent =>
    rcases h with _ | ⟨hgrammar, _ | ⟨hlookahead, _ | ⟨hparent, _ | _⟩⟩⟩
    rw [operation, ofFields?, optional?_of_reads hgrammar htext htext',
      defaulted?_of_reads hlookahead (Json.word?_ofWord lookahead) (by simp),
      optional?_of_reads hparent Json.word?_ofWord hword']
    rfl
  | leaf offset length grammar hidden errorText parent =>
    have hboolean : (Json.boolean hidden).boolean? = some hidden := rfl
    rcases h with _ | ⟨hoffset, _ | ⟨hlength, _ | ⟨hgrammar, _ | ⟨hhidden, _ | ⟨herror, _ | ⟨hparent, _ | _⟩⟩⟩⟩⟩⟩
    rw [operation, ofFields?, required?_of_reads hoffset (Json.word?_ofWord offset),
      required?_of_reads hlength (Json.word?_ofWord length), optional?_of_reads hgrammar htext htext',
      defaulted?_of_reads hhidden hboolean (by simp), optional?_of_reads herror htext htext',
      required?_of_reads hparent (Json.word?_ofWord parent)]
    rfl
  | addChild parent child =>
    rcases h with _ | ⟨hparent, _ | ⟨hchild, _ | _⟩⟩
    rw [operation, ofFields?, required?_of_reads hparent (Json.word?_ofWord parent),
      required?_of_reads hchild (Json.word?_ofWord child)]
    rfl
  | associate node element =>
    rcases h with _ | ⟨hnode, _ | ⟨helement, _ | _⟩⟩
    rw [operation, ofFields?, required?_of_reads hnode (Json.word?_ofWord node),
      required?_of_reads helement (Json.word?_ofWord element)]
    rfl
  | wrap grammar lookahead node =>
    rcases h with _ | ⟨hgrammar, _ | ⟨hlookahead, _ | ⟨hnode, _ | _⟩⟩⟩
    rw [operation, ofFields?, optional?_of_reads hgrammar htext htext',
      defaulted?_of_reads hlookahead (Json.word?_ofWord lookahead) (by simp),
      required?_of_reads hnode (Json.word?_ofWord node)]
    rfl
  | error node message issueCode issueData =>
    rcases h with _ | ⟨hnode, _ | ⟨hmessage, _ | ⟨hcode, _ | ⟨hdata, _ | _⟩⟩⟩⟩
    rw [operation, ofFields?, required?_of_reads hnode (Json.word?_ofWord node),
      required?_of_reads hmessage (htext message), optional?_of_reads hcode htext htext',
      defaulted?_of_reads hdata (Json.texts?_ofTexts issueData) (by simp)]
    rfl
  | compress node =>
    rcases h with _ | ⟨hnode, _ | _⟩
    rw [operation, ofFields?, required?_of_reads hnode (Json.word?_ofWord node)]
    rfl

/-! ## Renditions of calls -/

/-- How a call may be written: as an object of its kind and its fields, or as an array of all of them in order. -/
inductive Form (call : Call) : Json → Prop where
  | object {members : List (String × Json)} :
      Renders (⟨"op", .ofText call.operation.name, false⟩ :: call.fields) members → Form call (.ofMembers members)
  | array : Form call (.array (.ofText call.operation.name :: call.fields.map Field.value))

theorem itemsFit_of_forall {room : Nat} {items : List Json} (h : ∀ item ∈ items, Json.fits room item = true) :
    Json.itemsFit room items = true := by
  induction items with
  | nil => rfl
  | cons item items ih =>
    obtain ⟨hitem, hitems⟩ := List.forall_mem_cons.1 h
    rw [Json.itemsFit, hitem, ih hitems]
    rfl

theorem membersFit_of_forall {room : Nat} {members : List (String × Json)}
    (h : ∀ member ∈ members, Json.fits room member.2 = true) :
    Json.membersFit room (members.map fun (name, value) => (some name, value)) = true := by
  induction members with
  | nil => rfl
  | cons member members ih =>
    obtain ⟨hmember, hmembers⟩ := List.forall_mem_cons.1 h
    rw [List.map_cons, Json.membersFit, hmember, ih hmembers]
    rfl

/-- The fields of a call can be held in memory wherever there is room for one array. -/
theorem fits_fields (call : Call) (room : Nat) : ∀ field ∈ call.fields, Json.fits (room + 1) field.value = true := by
  have hword : ∀ word, Json.fits (room + 1) (.ofWord word) = true := Json.isFinite_ofWord
  have htext : ∀ text, Json.fits (room + 1) (.ofText text) = true := fun _ => rfl
  have hboolean : ∀ value, Json.fits (room + 1) (.boolean value) = true := fun _ => rfl
  have htexts : ∀ texts : List String, Json.fits (room + 1) (.ofTexts texts) = true := by
    intro texts
    rw [Json.ofTexts, Json.fits]
    refine itemsFit_of_forall fun item hitem => ?_
    obtain ⟨text, -, rfl⟩ := List.mem_map.1 hitem
    rfl
  have hnullable : ∀ {α : Type} {write : α → Json}, (∀ value, Json.fits (room + 1) (write value) = true) →
      ∀ value : Option α, Json.fits (room + 1) (.ofNullable write value) = true := by
    intro α write hwrite value
    cases value with
    | none => rfl
    | some value => exact hwrite value
  cases call <;> simp [fields, hword, hboolean, htext, htexts, hnullable hword, hnullable htext]

theorem fits_of_form {json : Json} (h : call.Form json) : Json.fits nestingLimit json = true := by
  have hfields : ∀ field ∈ ⟨"op", .ofText call.operation.name, false⟩ :: call.fields,
      Json.fits 124 field.value = true := List.forall_mem_cons.2 ⟨rfl, fits_fields call 123⟩
  cases h with
  | object hrenders =>
    obtain ⟨kept, hsub, -, hperm⟩ := hrenders
    rw [Json.ofMembers, nestingLimit, Json.fits]
    refine membersFit_of_forall fun member hmember => ?_
    obtain ⟨field, hfield, rfl⟩ := List.mem_map.1 (hperm.mem_iff.1 hmember)
    exact hfields field (hsub.subset hfield)
  | array =>
    rw [nestingLimit, Json.fits]
    refine itemsFit_of_forall fun item hitem => ?_
    rw [← List.map_cons (f := Field.value) (a := ⟨"op", .ofText call.operation.name, false⟩)] at hitem
    obtain ⟨field, hfield, rfl⟩ := List.mem_map.1 hitem
    exact hfields field hfield

/-- A call that is written as an object or an array is read as that call. -/
theorem ofJson?_of_form {json : Json} (h : call.Form json) : Call.ofJson? json = some call := by
  rw [Call.ofJson?, if_pos (fits_of_form h)]
  cases h with
  | @object members hrenders =>
    have hnodup : ((⟨"op", .ofText call.operation.name, false⟩ :: call.fields).map Field.name).Nodup := by
      rw [List.map_cons, map_name_fields]
      exact nodup_names call.operation
    obtain ⟨⟨found, hfound, hop⟩, hfields⟩ := List.forall_mem_cons.1 fun _ hfield => hrenders.member? hnodup hfield
    obtain ⟨reads, hreads, hall⟩ := exists_reads hfields
    rw [map_name_fields] at hreads
    have hname : required? Json.text? found = some call.operation.name := required?_of_reads hop rfl
    rw [Json.ofMembers, parts?]
    simp only [named?_map, hfound, hname, hreads, Operation.ofName?_name, Option.bind_eq_bind, Option.bind_some,
      Option.pure_def]
    exact ofFields?_of_reads hall
  | array =>
    have hreads : call.operation.sequenceFields (call.fields.map Field.value) = call.fields.map (some ·.value) := by
      cases call <;> rfl
    have hall : List.Forall₂ Field.Reads call.fields (call.fields.map (some ·.value)) :=
      List.forall₂_map_right_iff.2 (List.forall₂_same.2 fun _ _ => .inl rfl)
    rw [parts?]
    simp only [Json.ofText, Json.text?, Operation.ofName?_name, Option.bind_eq_bind, Option.bind_some,
      Option.pure_def, hreads]
    exact ofFields?_of_reads hall

end Call

namespace Script

variable {script : Script} {json : Json} {text : String}

/-- How a script may be written: as an object of its text and its calls, or as an array of both, the text coming
first. -/
inductive Form (script : Script) : Json → Prop where
  | object {items : List Json} {members : List (String × Json)} : List.Forall₂ Call.Form script.calls items →
      Renders [⟨"text", .ofNullable .ofText script.text, script.text.isNone⟩, ⟨"calls", .array items, false⟩] members →
      Form script (.ofMembers members)
  | array {items : List Json} : List.Forall₂ Call.Form script.calls items →
      Form script (.array [.ofNullable .ofText script.text, .array items])

/-- A text that renders the script: the document of a value that the script may be written as. -/
def Rendition (script : Script) (text : String) : Prop :=
  ∃ json, script.Form json ∧ json.Written text

theorem mapM_ofJson?_of_form {calls : List Call} {items : List Json} (h : List.Forall₂ Call.Form calls items) :
    items.mapM Call.ofJson? = some calls := by
  induction h with
  | nil => rfl
  | cons hcall _ ih =>
    rw [List.mapM_cons, Call.ofJson?_of_form hcall, ih]
    rfl

/-- A script that is written as an object or an array is read as that script. -/
theorem ofJson?_of_form (h : script.Form json) : Script.ofJson? json = some script := by
  have htext : ∀ text, (Json.ofText text).text? = some text := fun _ => rfl
  have htext' : ∀ text, Json.ofText text ≠ .null := nofun
  cases h with
  | @object items members hcalls hrenders =>
    have hnodup : ([⟨"text", .ofNullable .ofText script.text, script.text.isNone⟩, ⟨"calls", .array items, false⟩].map
        Field.name).Nodup := by simp
    obtain ⟨⟨text, hfound, htextread⟩, hmore⟩ := List.forall_mem_cons.1 fun _ hfield => hrenders.member? hnodup hfield
    obtain ⟨⟨calls, hfound', hcallsread⟩, -⟩ := List.forall_mem_cons.1 hmore
    obtain rfl | ⟨hfalse, -⟩ := hcallsread
    · rw [Json.ofMembers, Script.ofJson?]
      simp only [named?_map, hfound, hfound', Option.bind_eq_bind, Option.bind_some, Option.pure_def,
        Script.ofFields?, optional?_of_reads htextread htext htext', mapM_ofJson?_of_form hcalls]
    · cases hfalse
  | @array items hcalls =>
    have hread := Json.nullable?_ofNullable htext htext' script.text
    simp only [Script.ofJson?, Script.ofFields?, optional?, hread, mapM_ofJson?_of_form hcalls, Option.bind_eq_bind,
      Option.bind_some, Option.pure_def]

/-- Every rendition of a script is read as that script. -/
theorem parse?_of_rendition (h : script.Rendition text) : Script.parse? text = some script := by
  obtain ⟨json, hform, hwritten⟩ := h
  rw [Script.parse?, Json.parse?_eq_some_iff.2 hwritten]
  exact ofJson?_of_form hform

/-- A rendition with calls as objects and as an array, members out of order and left out, a surrogate pair and other
escapes, the name of a kind of call among them, and blanks of all four kinds. -/
theorem parse?_of_rendition_escaped : ∃ (script : Script) (text : String),
    script = ⟨some "aé😀", [.leaf 0 1 none false none 0, .error 1 "m" none ["x"], .composite none 0 none]⟩ ∧
    script.Rendition text ∧ Script.parse? text = some script := by
  obtain ⟨text, htext⟩ : ∃ text, text = "\t\x7b\"calls\" : [\x7b\"parent\":0,\"grammar\":null,\"length\":1," ++
    "\"offset\":0,\"op\":\"le\\u0061f\"\x7d,\n[\"error\",1,\"m\",null,[\"x\"]],\x7b\"op\":\"composite\"\x7d]," ++
    "\"text\":\"a\\u00e9\\uD83d\\ude00\"\x7d\r\n" := ⟨_, rfl⟩
  have hleaf : (Call.leaf 0 1 none false none 0).Form (.ofMembers [("parent", .ofWord 0), ("grammar", .null),
      ("length", .ofWord 1), ("offset", .ofWord 0), ("op", .ofText "leaf")]) := by
    refine .object ⟨[⟨"op", .ofText "leaf", false⟩, ⟨"offset", .ofWord 0, false⟩, ⟨"length", .ofWord 1, false⟩,
      ⟨"grammar", .null, true⟩, ⟨"parent", .ofWord 0, false⟩], ?_, ?_, List.reverse_perm [("op", Json.ofText "leaf"),
      ("offset", Json.ofWord 0), ("length", Json.ofWord 1), ("grammar", Json.null), ("parent", Json.ofWord 0)]⟩
    · exact .cons_cons _ (.cons_cons _ (.cons_cons _ (.cons_cons _ (.cons _ (.cons _ (.refl _))))))
    · simp [Call.fields, Call.operation, Operation.name, Json.ofNullable]
  have herror : (Call.error 1 "m" none ["x"]).Form (.array [.ofText "error", .ofWord 1, .ofText "m", .null,
      .array [.ofText "x"]]) := .array
  have hcomposite : (Call.composite none 0 none).Form (.ofMembers [("op", .ofText "composite")]) := by
    refine .object ⟨[⟨"op", .ofText "composite", false⟩], .cons_cons _ (List.nil_sublist _), ?_, List.Perm.refl _⟩
    simp [Call.fields, Call.operation, Operation.name]
  suffices hrendition : Rendition ⟨some "aé😀", [.leaf 0 1 none false none 0, .error 1 "m" none ["x"],
      .composite none 0 none]⟩ text from ⟨_, text, rfl, hrendition, parse?_of_rendition hrendition⟩
  refine ⟨.ofMembers [("calls", .array _), ("text", .ofText "aé😀")],
    .object (.cons hleaf (.cons herror (.cons hcomposite .nil))) ⟨_, .refl _, fun _ hin hout => absurd hin hout,
      List.reverse_perm [("text", Json.ofText "aé😀"), ("calls", Json.array _)]⟩, Json.row_of_tokens? ?_⟩
  subst htext
  decide +kernel

end Script

end SyntaxTree
