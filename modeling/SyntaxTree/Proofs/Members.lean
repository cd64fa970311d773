import SyntaxTree.Proofs.Renditions

/-!
# Unknown members are inert, repeated known ones are fatal

A script may say more than the reader asks for: members of other names do not matter, wherever they stand. A name that
the reader asks for may stand only once. Which names those are depends on where an object stands: a script has two, a
call has those of its kind, and the kind may be told by a later member than the one in question.

A `Site` is a place in a document where such an object stands, with the document around it; all calls of a script stand
at sites (`exists_site`). The main result `parse?_insert` compares texts of two documents that differ by one member of
the object at a site, whatever else differs in how the texts are written. That such a text can be had by putting the
member between two parts of the other text, at each place among the members, is shown by `exists_written_insert`.
-/

namespace SyntaxTree

namespace Json

variable {members before after : List (String × Json)} {name other : String} {value : Json}

/-! ## Members of objects -/

/-- Members get their names if all names spell text. -/
theorem named?_eq_some_iff {written : List (Option String × Json)} :
    named? written = some members ↔ written = members.map fun (name, value) => (some name, value) := by
  constructor
  · intro h
    induction written generalizing members with
    | nil =>
      obtain rfl := Option.some.inj h
      rfl
    | cons member written ih =>
      obtain ⟨_ | name, value⟩ := member
      · rw [named?, List.mapM_cons] at h
        cases h
      · rw [named?, List.mapM_cons] at h
        obtain ⟨first, hfirst, h⟩ := Option.bind_eq_some_iff.1 h
        obtain rfl := Option.some.inj hfirst
        obtain ⟨rest, hrest, h⟩ := Option.bind_eq_some_iff.1 h
        obtain rfl := Option.some.inj h
        rw [List.map_cons, ih hrest]
  · rintro rfl
    exact named?_map members

theorem named?_map_insert (before after : List (String × Json)) (name : String) (value : Json) :
    named? (before.map (fun (name, value) => (some name, value)) ++ (some name, value) ::
      after.map fun (name, value) => (some name, value)) = some (before ++ (name, value) :: after) := by
  rw [named?_eq_some_iff, List.map_append, List.map_cons]

/-- Members with one more among them. -/
theorem named?_insert {xs ys : List (Option String × Json)} (h : named? (xs ++ ys) = some members) :
    ∃ before after, members = before ++ after ∧
      (∀ name, some name ∈ (xs ++ ys).map Prod.fst → name ∈ (before ++ after).map Prod.fst) ∧
      ∀ name value, named? (xs ++ (some name, value) :: ys) = some (before ++ (name, value) :: after) := by
  obtain ⟨before, after, rfl, rfl, rfl⟩ := List.append_eq_map_iff.1 (named?_eq_some_iff.1 h)
  refine ⟨before, after, rfl, fun name hname => ?_, named?_map_insert before after⟩
  obtain ⟨member, hmember, he⟩ := List.mem_map.1 hname
  rw [← List.map_append] at hmember
  obtain ⟨⟨other, value⟩, hmem, rfl⟩ := List.mem_map.1 hmember
  obtain rfl := Option.some.inj he
  exact List.mem_map_of_mem hmem

theorem member?_insert_of_ne (h : other ≠ name) :
    member? name (before ++ (other, value) :: after) = member? name (before ++ after) := by
  rw [member?, member?, List.filter_append, List.filter_append, List.filter_cons_of_neg (by simpa using h)]

theorem filter_insert_self : (before ++ (name, value) :: after).filter (·.1 == name)
    = before.filter (·.1 == name) ++ (name, value) :: after.filter (·.1 == name) := by
  rw [List.filter_append, List.filter_cons_of_pos (by simp)]

theorem filter_eq_nil_of_not_mem (h : name ∉ members.map Prod.fst) : members.filter (·.1 == name) = [] := by
  rw [List.filter_eq_nil_iff]
  intro member hmember he
  exact h (List.mem_map.2 ⟨member, hmember, eq_of_beq he⟩)

theorem member?_insert_self_of_not_mem (h : name ∉ (before ++ after).map Prod.fst) :
    member? name (before ++ (name, value) :: after) = some (some value) := by
  rw [List.map_append, List.mem_append, not_or] at h
  rw [member?, filter_insert_self, filter_eq_nil_of_not_mem h.1, filter_eq_nil_of_not_mem h.2]
  rfl

/-- A name that is there already cannot be added. -/
theorem member?_insert_self (value : Json) (h : name ∈ (before ++ after).map Prod.fst) :
    member? name (before ++ (name, value) :: after) = none := by
  obtain ⟨member, hmember, hname⟩ := List.mem_map.1 h
  have hfound : member ∈ before.filter (·.1 == name) ++ after.filter (·.1 == name) := by
    rw [← List.filter_append]
    exact List.mem_filter.2 ⟨hmember, beq_iff_eq.2 hname⟩
  have hmany := List.length_pos_of_mem hfound
  rw [List.length_append] at hmany
  rw [member?, filter_insert_self]
  split
  · next hnil => simp at hnil
  · next hone =>
    have hlength := congrArg List.length hone
    rw [List.length_append, List.length_cons, List.length_singleton] at hlength
    omega
  · rfl

/-- Other members are found as before. -/
theorem mapM_member?_insert_of_not_mem {names : List String} (h : name ∉ names) :
    names.mapM (fun field => member? field (before ++ (name, value) :: after))
      = names.mapM (fun field => member? field (before ++ after)) := by
  induction names with
  | nil => rfl
  | cons field names ih =>
    obtain ⟨hne, hnames⟩ := List.ne_and_not_mem_of_not_mem_cons h
    rw [List.mapM_cons, List.mapM_cons, member?_insert_of_ne hne, ih hnames]

/-- Nothing is found if one of the members that are asked for stands there twice. -/
theorem mapM_member?_insert_of_mem {names : List String} (h : name ∈ names)
    (hrepeated : name ∈ (before ++ after).map Prod.fst) :
    names.mapM (fun field => member? field (before ++ (name, value) :: after)) = none := by
  induction names with
  | nil => cases h
  | cons field names ih =>
    rw [List.mapM_cons]
    rcases List.mem_cons.1 h with rfl | hmem
    · rw [member?_insert_self value hrepeated]
      rfl
    · rw [ih hmem]
      cases member? field (before ++ (name, value) :: after) <;> rfl

theorem mem_of_member? (h : member? name members = some (some value)) : (name, value) ∈ members := by
  rw [member?] at h
  split at h
  · cases h
  · next other found hfound =>
    obtain ⟨hmem, hname⟩ := List.mem_filter.1 (hfound ▸ List.mem_singleton_self (other, found))
    obtain rfl := Option.some.inj (Option.some.inj h)
    obtain rfl := eq_of_beq hname
    exact hmem
  · cases h

theorem membersFit_insert {room : Nat} {xs ys : List (Option String × Json)} : membersFit room
    (xs ++ (some name, value) :: ys) = (membersFit room (xs ++ ys) && fits room value) := by
  induction xs with
  | nil => rw [List.nil_append, List.nil_append, membersFit, Option.isSome_some, Bool.true_and, Bool.and_comm]
  | cons x xs ih =>
    obtain ⟨name', value'⟩ := x
    rw [List.cons_append, List.cons_append, membersFit, membersFit, ih, ← Bool.and_assoc]

/-! ## Where a member is put into a text -/

/-- No comma, or one. -/
def Separator (tokens : List Token) : Prop :=
  tokens = [] ∨ tokens = [.comma]

theorem Separator.exists_row {tokens : List Token} (h : Separator tokens) :
    ∃ separator : String, (separator = "" ∨ separator = ",") ∧ Row tokens separator.toList := by
  rcases h with rfl | rfl
  · exact ⟨"", .inl rfl, .nil nofun⟩
  · exact ⟨",", .inr rfl, .singleton (.mark (by decide))⟩

/-- A member is put into an object at one place, and with it at most a comma before or behind it. -/
theorem membersTokens_insert (xs ys : List (Option String × Json)) :
    ∃ front back lead trail, Separator lead ∧ Separator trail ∧ membersTokens (xs ++ ys) = front ++ back ∧
      ∀ name value, membersTokens (xs ++ (name, value) :: ys)
        = front ++ (lead ++ (.string name :: .colon :: value.tokens) ++ trail ++ back) := by
  induction xs with
  | nil =>
    cases ys with
    | nil => exact ⟨[], _, [], [], .inl rfl, .inl rfl, rfl, fun name value => by simp [membersTokens]⟩
    | cons y ys => exact ⟨[], _, [], [.comma], .inl rfl, .inr rfl, rfl, fun name value => by simp [membersTokens]⟩
  | cons x xs ih =>
    obtain ⟨name, value⟩ := x
    obtain ⟨front, back, lead, trail, hlead, htrail, hsame, hinsert⟩ := ih
    by_cases hlast : xs ++ ys = []
    · obtain ⟨rfl, rfl⟩ := List.append_eq_nil_iff.1 hlast
      exact ⟨.string name :: .colon :: value.tokens, [.closeBrace], [.comma], [], .inr rfl, .inl rfl,
        by simp [membersTokens], fun name' value' => by simp [membersTokens]⟩
    · refine ⟨.string name :: .colon :: (value.tokens ++ .comma :: front), back, lead, trail, hlead, htrail, ?_, ?_⟩
      · rw [List.cons_append, membersTokens_cons hlast, hsame]
        simp
      · intro name' value'
        rw [List.cons_append, membersTokens_cons (by simp), hinsert]
        simp

theorem itemsTokens_around (earlier later : List Json) : ∃ front back, ∀ item : Json,
    itemsTokens (earlier ++ item :: later) = front ++ (item.tokens ++ back) := by
  induction earlier with
  | nil =>
    cases later with
    | nil => exact ⟨[], _, fun item => by rw [List.nil_append, itemsTokens]; rfl⟩
    | cons next later => exact ⟨[], _, fun item => by rw [List.nil_append, itemsTokens]; rfl⟩
  | cons first earlier ih =>
    obtain ⟨front, back, h⟩ := ih
    refine ⟨first.tokens ++ .comma :: front, back, fun item => ?_⟩
    rw [List.cons_append, itemsTokens_cons (by simp), h]
    simp

theorem membersTokens_around (before after : List (Option String × Json)) (name : Option String) :
    ∃ front back, ∀ value : Json,
      membersTokens (before ++ (name, value) :: after) = front ++ (value.tokens ++ back) := by
  induction before with
  | nil =>
    cases after with
    | nil => exact ⟨[.string name, .colon], _, fun value => by rw [List.nil_append, membersTokens]; rfl⟩
    | cons next after => exact ⟨[.string name, .colon], _, fun value => by rw [List.nil_append, membersTokens]; rfl⟩
  | cons first before ih =>
    obtain ⟨front, back, h⟩ := ih
    obtain ⟨name', value'⟩ := first
    refine ⟨.string name' :: .colon :: (value'.tokens ++ .comma :: front), back, fun value => ?_⟩
    rw [List.cons_append, membersTokens_cons (by simp), h]
    simp

end Json

/-! ## Calls -/

namespace Call

variable {call : Call} {xs ys : List (Option String × Json)} {name : String} {value : Json}

/-- A call is of the kind that its fields were read for. -/
theorem operation_of_ofFields? {operation : Operation} {reads : List (Option Json)}
    (h : ofFields? operation reads = some call) : call.operation = operation := by
  unfold ofFields? at h
  split at h
  case h_8 => cases h
  -- whatever the values of the fields are
  all_goals
    simp only [Option.bind_eq_bind, Option.bind_eq_some_iff, Option.pure_def, Option.some.injEq] at h
    repeat obtain ⟨_, -, h⟩ := h
    rfl

/-- The kind and the fields of a call that is written as an object. -/
theorem parts?_insert (name : String) (value : Json) {operation : Operation} {reads : List (Option Json)}
    (h : parts? (.object (xs ++ ys)) = some (operation, reads)) :
    (name ∉ "op" :: operation.fieldNames →
      parts? (.object (xs ++ (some name, value) :: ys)) = some (operation, reads)) ∧
    (name ∈ "op" :: operation.fieldNames → some name ∈ (xs ++ ys).map Prod.fst →
      parts? (.object (xs ++ (some name, value) :: ys)) = none) := by
  rw [parts?] at h
  obtain ⟨members, hmembers, h⟩ := Option.bind_eq_some_iff.1 h
  obtain ⟨found, hfound, h⟩ := Option.bind_eq_some_iff.1 h
  obtain ⟨kind, hkind, h⟩ := Option.bind_eq_some_iff.1 h
  obtain ⟨operation', hoperation, h⟩ := Option.bind_eq_some_iff.1 h
  obtain ⟨reads', hreads, h⟩ := Option.bind_eq_some_iff.1 h
  obtain ⟨rfl, rfl⟩ := Prod.mk.inj (Option.some.inj h)
  obtain ⟨before, after, rfl, hnames, hinsert⟩ := Json.named?_insert hmembers
  constructor
  · intro hunknown
    obtain ⟨hop, hfields⟩ := List.ne_and_not_mem_of_not_mem_cons hunknown
    simp only [parts?, hinsert, Json.member?_insert_of_ne hop, hfound, hkind, hoperation,
      Json.mapM_member?_insert_of_not_mem hfields, hreads, Option.bind_eq_bind, Option.bind_some, Option.pure_def]
  · intro hknown hrepeated
    rcases List.mem_cons.1 hknown with rfl | hfield
    · simp only [parts?, hinsert, Json.member?_insert_self value (hnames "op" hrepeated), Option.bind_eq_bind,
        Option.bind_some, Option.bind_none]
    · have hop : name ≠ "op" := by
        rintro rfl
        exact (List.nodup_cons.1 (nodup_names operation')).1 hfield
      simp only [parts?, hinsert, Json.member?_insert_of_ne hop, hfound, hkind, hoperation,
        Json.mapM_member?_insert_of_mem hfield (hnames name hrepeated), Option.bind_eq_bind, Option.bind_some,
        Option.bind_none]

/-- A call is still the same with a member that its kind does not know, but no call with one that it has already. -/
theorem ofJson?_insert (name : String) (value : Json) (h : ofJson? (.object (xs ++ ys)) = some call) :
    (name ∉ "op" :: call.operation.fieldNames → Json.fits 124 value = true →
      ofJson? (.object (xs ++ (some name, value) :: ys)) = some call) ∧
    (name ∈ "op" :: call.operation.fieldNames → some name ∈ (xs ++ ys).map Prod.fst →
      ofJson? (.object (xs ++ (some name, value) :: ys)) = none) := by
  rw [ofJson?] at h
  split at h
  case isFalse => cases h
  case isTrue hfits =>
    obtain ⟨⟨operation, reads⟩, hparts, hcall⟩ := Option.bind_eq_some_iff.1 h
    obtain rfl := operation_of_ofFields? hcall
    obtain ⟨hunknown, hknown⟩ := parts?_insert name value hparts
    constructor
    · intro hname hvalue
      have hfits' : (Json.object (xs ++ (some name, value) :: ys)).fits nestingLimit = true := by
        rw [nestingLimit, Json.fits] at hfits ⊢
        rw [Json.membersFit_insert, hfits, hvalue]
        rfl
      rw [ofJson?, if_pos hfits', hunknown hname]
      exact hcall
    · intro hname hrepeated
      rw [ofJson?, hknown hname hrepeated]
      split <;> rfl

end Call

namespace Script

variable {script : Script} {xs ys : List (Option String × Json)} {name : String} {value : Json}

/-- A script is still the same with a member of another name, but no script with one that it has already. -/
theorem ofJson?_insert (name : String) (value : Json) (h : ofJson? (.object (xs ++ ys)) = some script) :
    (name ∉ ["text", "calls"] → ofJson? (.object (xs ++ (some name, value) :: ys)) = some script) ∧
    (name ∈ ["text", "calls"] → some name ∈ (xs ++ ys).map Prod.fst →
      ofJson? (.object (xs ++ (some name, value) :: ys)) = none) := by
  rw [ofJson?] at h
  obtain ⟨members, hmembers, h⟩ := Option.bind_eq_some_iff.1 h
  obtain ⟨foundText, htext, h⟩ := Option.bind_eq_some_iff.1 h
  obtain ⟨foundCalls, hcalls, h⟩ := Option.bind_eq_some_iff.1 h
  obtain ⟨before, after, rfl, hnames, hinsert⟩ := Json.named?_insert hmembers
  constructor
  · intro hname
    obtain ⟨hne, hne'⟩ : name ≠ "text" ∧ name ≠ "calls" := by simpa using hname
    rw [← h]
    simp only [ofJson?, hinsert, Json.member?_insert_of_ne hne, Json.member?_insert_of_ne hne', htext, hcalls,
      Option.bind_eq_bind, Option.bind_some]
  · intro hname hrepeated
    have hnone := Json.member?_insert_self value (hnames name hrepeated)
    rcases List.mem_cons.1 hname with rfl | hname
    · simp only [ofJson?, hinsert, hnone, Option.bind_eq_bind, Option.bind_some, Option.bind_none]
    · obtain rfl := List.mem_singleton.1 hname
      simp only [ofJson?, hinsert, hnone, Json.member?_insert_of_ne (by decide : "calls" ≠ "text"), htext,
        Option.bind_eq_bind, Option.bind_some, Option.bind_none]

/-- A place in a document where an object stands: that of the script, or that of a call, with what stands around it. -/
inductive Site where
  | script
  | inObject (before after : List (Option String × Json)) (earlier later : List Json)
  | inArray (text : Json) (earlier later : List Json)

namespace Site

/-- The document with an object at the site. -/
def document (object : Json) : Site → Json
  | .script => object
  | .inObject before after earlier later =>
    .object (before ++ (some "calls", .array (earlier ++ object :: later)) :: after)
  | .inArray text earlier later => .array [text, .array (earlier ++ object :: later)]

/-- The names that are asked for in an object at the site. -/
def known (object : Json) : Site → List String
  | .script => ["text", "calls"]
  | .inObject .. | .inArray .. => (Call.ofJson? object).elim [] fun call => "op" :: call.operation.fieldNames

/-- What the value of an unknown member may be: in a script anything, for it is passed over as it is read. A call is held
in memory first; it is the third of the arrays and objects around the value, of which there may be 127. -/
def Admits (value : Json) : Site → Prop
  | .script => True
  | .inObject .. | .inArray .. => 3 + value.nesting ≤ 127 ∧ Json.AllDecoded value.scalars

/-- One call is read, and the others around it. -/
theorem ofFields?_calls (text : Option Json) (earlier later : List Json) :
    ∃ resume : Call → Option Script, ∀ object,
      ofFields? text (some (.array (earlier ++ object :: later))) = (Call.ofJson? object).bind resume := by
  refine ⟨fun call => do
    let text ← optional? Json.text? text
    let calls ← earlier.mapM Call.ofJson?
    let calls' ← later.mapM Call.ofJson?
    return ⟨text, calls ++ call :: calls'⟩, fun object => ?_⟩
  simp only [ofFields?, List.mapM_append, List.mapM_cons]
  cases optional? Json.text? text <;> cases earlier.mapM Call.ofJson? <;> cases Call.ofJson? object <;>
    cases later.mapM Call.ofJson? <;> rfl

/-- Where a document of a script has a call, the script depends on what stands there only in so far as it is a call. -/
theorem exists_resume {site : Site} {object : Json} (h : ofJson? (site.document object) = some script)
    (hsite : site ≠ .script) : ∃ resume : Call → Option Script,
      ∀ object', ofJson? (site.document object') = (Call.ofJson? object').bind resume := by
  cases site with
  | script => exact absurd rfl hsite
  | inArray text earlier later => exact ofFields?_calls (some text) earlier later
  | inObject before after earlier later =>
    rw [document, ofJson?] at h
    obtain ⟨members, hmembers, h⟩ := Option.bind_eq_some_iff.1 h
    obtain ⟨foundText, htext, h⟩ := Option.bind_eq_some_iff.1 h
    obtain ⟨foundCalls, hcalls, -⟩ := Option.bind_eq_some_iff.1 h
    obtain ⟨before', rest, rfl, rfl, hrest⟩ := List.append_eq_map_iff.1 (Json.named?_eq_some_iff.1 hmembers)
    obtain ⟨⟨name, value⟩, after', rfl, hmember, rfl⟩ := List.map_eq_cons_iff.1 hrest
    obtain ⟨hname, rfl⟩ := Prod.mk.inj hmember
    obtain rfl := Option.some.inj hname
    have hnew : "calls" ∉ (before' ++ after').map Prod.fst := by
      intro hrepeated
      rw [Json.member?_insert_self _ hrepeated] at hcalls
      cases hcalls
    obtain ⟨resume, hresume⟩ := ofFields?_calls foundText earlier later
    refine ⟨resume, fun object' => ?_⟩
    rw [Json.member?_insert_of_ne (by decide)] at htext
    simp only [document, ofJson?, Json.named?_map_insert, Json.member?_insert_of_ne (by decide : "calls" ≠ "text"), htext,
      Json.member?_insert_self_of_not_mem hnew, Option.bind_eq_bind, Option.bind_some]
    exact hresume object'

theorem known_eq {site : Site} {object : Json} {call : Call} (hsite : site ≠ .script)
    (hcall : Call.ofJson? object = some call) : site.known object = "op" :: call.operation.fieldNames := by
  cases site with
  | script => exact absurd rfl hsite
  | inObject | inArray => rw [known, hcall, Option.elim_some]

/-- What may stand in a call can be held in memory there. -/
theorem admits_iff {site : Site} (hsite : site ≠ .script) : site.Admits value ↔ value.fits 124 = true := by
  rw [Json.fits_iff]
  cases site with
  | script => exact absurd rfl hsite
  | inObject | inArray => exact and_congr_left' (by omega)

theorem tokens_around (site : Site) : ∃ front back, ∀ object : Json,
    (site.document object).tokens = front ++ (object.tokens ++ back) := by
  cases site with
  | script => exact ⟨[], [], fun object => (List.append_nil _).symm⟩
  | inArray text earlier later =>
    obtain ⟨front, back, h⟩ := Json.itemsTokens_around earlier later
    refine ⟨.openBracket :: (text.tokens ++ .comma :: .openBracket :: front), back ++ [.closeBracket], fun object => ?_⟩
    rw [document, Json.tokens, Json.itemsTokens, Json.itemsTokens, Json.tokens, h]
    simp
  | inObject before after earlier later =>
    obtain ⟨front, back, h⟩ := Json.membersTokens_around before after (some "calls")
    obtain ⟨front', back', h'⟩ := Json.itemsTokens_around earlier later
    refine ⟨.openBrace :: (front ++ .openBracket :: front'), back' ++ back, fun object => ?_⟩
    rw [document, Json.tokens, h, Json.tokens, h']
    simp

/-- At each place among the members of an object one more can be written into the text, set off by a comma if there are
others. -/
theorem exists_written_insert {site : Site} {text : String} (h : (site.document (.object (xs ++ ys))).Written text) :
    ∃ front back lead trail : String, text = front ++ back ∧ (lead = "" ∨ lead = ",") ∧ (trail = "" ∨ trail = ",") ∧
      ∀ name value word valueText, Json.TokenText (.string (some name)) word.toList → value.Written valueText →
        (site.document (.object (xs ++ (some name, value) :: ys))).Written
          (front ++ (lead ++ (word ++ ":" ++ valueText) ++ trail) ++ back) := by
  obtain ⟨front, back, haround⟩ := site.tokens_around
  obtain ⟨front', back', lead, trail, hlead, htrail, hsame, hinsert⟩ := Json.membersTokens_insert xs ys
  obtain ⟨leadText, hleadText, hlead⟩ := hlead.exists_row
  obtain ⟨trailText, htrailText, htrail⟩ := htrail.exists_row
  have hold : (site.document (.object (xs ++ ys))).tokens = (front ++ .openBrace :: front') ++ (back' ++ back) := by
    rw [haround, Json.tokens, hsame]
    simp
  rw [Json.Written, hold] at h
  obtain ⟨frontText, backText, htext, hfront, hback⟩ := h.split
  refine ⟨.ofList frontText, .ofList backText, leadText, trailText, ?_, hleadText, htrailText, ?_⟩
  · rw [← String.toList_inj, htext]
    simp
  · intro name value word valueText hword hvalue
    have hmember : Json.Row (.string (some name) :: .colon :: value.tokens) (word ++ ":" ++ valueText).toList := by
      have hcolon : Json.Row [.colon] ":".toList := .singleton (.mark (by decide))
      simpa using ((Json.Row.singleton hword).append hcolon).append hvalue
    have hnew : (site.document (.object (xs ++ (some name, value) :: ys))).tokens = (front ++ .openBrace :: front') ++
        (lead ++ (.string (some name) :: .colon :: value.tokens) ++ trail) ++ (back' ++ back) := by
      rw [haround, Json.tokens, hinsert]
      simp
    rw [Json.Written, hnew]
    simpa using (hfront.append ((hlead.append hmember).append htrail)).append hback

end Site

/-- A call of a script is one of its items. -/
theorem exists_item_of_mapM {items : List Json} {calls : List Call} {call : Call}
    (h : items.mapM Call.ofJson? = some calls) (hcall : call ∈ calls) :
    ∃ earlier item later, items = earlier ++ item :: later ∧ Call.ofJson? item = some call := by
  induction items generalizing calls with
  | nil =>
    obtain rfl := Option.some.inj h
    cases hcall
  | cons item items ih =>
    rw [List.mapM_cons] at h
    obtain ⟨first, hfirst, h⟩ := Option.bind_eq_some_iff.1 h
    obtain ⟨rest, hrest, h⟩ := Option.bind_eq_some_iff.1 h
    obtain rfl := Option.some.inj h
    rcases List.mem_cons.1 hcall with rfl | hcall
    · exact ⟨[], item, items, rfl, hfirst⟩
    · obtain ⟨earlier, found, later, rfl, hfound⟩ := ih hrest hcall
      exact ⟨item :: earlier, found, later, rfl, hfound⟩

theorem exists_items_of_ofFields? {text calls : Option Json} (h : ofFields? text calls = some script) :
    ∃ items, calls = some (.array items) ∧ items.mapM Call.ofJson? = some script.calls := by
  rw [ofFields?] at h
  obtain ⟨text, -, h⟩ := Option.bind_eq_some_iff.1 h
  split at h
  case h_1 =>
    obtain ⟨calls, hcalls, h⟩ := Option.bind_eq_some_iff.1 h
    obtain rfl := Option.some.inj h
    exact ⟨_, rfl, hcalls⟩
  case h_2 => cases h

/-- Every call of a script stands at a site of its document. -/
theorem exists_site {json : Json} {call : Call} (h : ofJson? json = some script) (hcall : call ∈ script.calls) :
    ∃ (site : Site) (object : Json), site ≠ .script ∧ json = site.document object ∧
      Call.ofJson? object = some call := by
  unfold ofJson? at h
  split at h
  · next members =>
    obtain ⟨members, hmembers, h⟩ := Option.bind_eq_some_iff.1 h
    obtain ⟨foundText, -, h⟩ := Option.bind_eq_some_iff.1 h
    obtain ⟨foundCalls, hfound, h⟩ := Option.bind_eq_some_iff.1 h
    obtain ⟨items, rfl, hitems⟩ := exists_items_of_ofFields? h
    obtain ⟨earlier, item, later, rfl, hitem⟩ := exists_item_of_mapM hitems hcall
    obtain ⟨before, after, rfl⟩ := List.append_of_mem (Json.mem_of_member? hfound)
    rw [Json.named?_eq_some_iff, List.map_append, List.map_cons] at hmembers
    subst hmembers
    exact ⟨.inObject _ _ earlier later, item, nofun, rfl, hitem⟩
  · next text calls =>
    obtain ⟨items, hcalls, hitems⟩ := exists_items_of_ofFields? h
    obtain rfl := Option.some.inj hcalls
    obtain ⟨earlier, item, later, rfl, hitem⟩ := exists_item_of_mapM hitems hcall
    exact ⟨.inArray text earlier later, item, nofun, rfl, hitem⟩
  · cases h

/-- Two texts that differ by one more member of the script or of a call, wherever it stands among the others. -/
theorem parse?_insert {site : Site} {text text' : String} (hparse : Script.parse? text = some script)
    (htext : (site.document (.object (xs ++ ys))).Written text)
    (htext' : (site.document (.object (xs ++ (some name, value) :: ys))).Written text') :
    (name ∉ site.known (.object (xs ++ ys)) → site.Admits value → Script.parse? text' = some script) ∧
    (name ∈ site.known (.object (xs ++ ys)) → some name ∈ (xs ++ ys).map Prod.fst → Script.parse? text' = none) := by
  have hread := Json.parse?_eq_some_iff.2 htext
  have hread' := Json.parse?_eq_some_iff.2 htext'
  simp only [Script.parse?, hread, hread', Option.bind_eq_bind, Option.bind_some] at hparse ⊢
  by_cases hsite : site = .script
  · subst hsite
    obtain ⟨hunknown, hknown⟩ := ofJson?_insert name value hparse
    exact ⟨fun hname _ => hunknown hname, hknown⟩
  · obtain ⟨resume, hresume⟩ := Site.exists_resume hparse hsite
    rw [hresume] at hparse ⊢
    obtain ⟨call, hcall, hscript⟩ := Option.bind_eq_some_iff.1 hparse
    obtain ⟨hunknown, hknown⟩ := Call.ofJson?_insert name value hcall
    rw [Site.known_eq hsite hcall]
    constructor
    · intro hname hadmits
      rw [hunknown hname ((Site.admits_iff hsite).1 hadmits)]
      exact hscript
    · intro hname hrepeated
      rw [hknown hname hrepeated]
      rfl

/-- A member that is put before the name of the kind of a call does not matter, although its value has a member of that
name; a second name of the kind does. -/
theorem parse?_insert_around_op : ∃ script text unknown repeated,
    text = "\x7b\"calls\":[\x7b\"op\":\"wrap\",\"node\":0\x7d]\x7d" ∧
    unknown = "\x7b\"calls\":[\x7b\"child\" : [\x7b\"op\":1e9\x7d],\"op\":\"wrap\",\"node\":0\x7d]\x7d" ∧
    repeated = "\x7b\"calls\":[\x7b\"op\":\"wrap\",\"node\":0,\"\\u006fp\":null\x7d]\x7d" ∧
    Script.parse? text = some script ∧ Script.parse? unknown = some script ∧ Script.parse? repeated = none := by
  refine ⟨⟨none, [.wrap none 0 0]⟩, _, _, _, rfl, rfl, rfl, ?_⟩
  have hparse : Script.parse? "\x7b\"calls\":[\x7b\"op\":\"wrap\",\"node\":0\x7d]\x7d"
      = some ⟨none, [.wrap none 0 0]⟩ := by
    decide +kernel
  have hcall : Call.ofJson? (.object [(some "op", .ofText "wrap"), (some "node", .ofWord 0)])
      = some (.wrap none 0 0) := by
    decide +kernel
  have hsite : Site.inObject [] [] [] [] ≠ .script := nofun
  have hknown := Site.known_eq hsite hcall
  have htext : ((Site.inObject [] [] [] []).document
      (.object [(some "op", .ofText "wrap"), (some "node", .ofWord 0)])).Written
      "\x7b\"calls\":[\x7b\"op\":\"wrap\",\"node\":0\x7d]\x7d" := by
    refine Json.row_of_tokens? ?_
    decide +kernel
  have hunknown : ((Site.inObject [] [] [] []).document (.object ([] ++ (some "child", .array [.object [(some "op",
      .number ⟨false, ['1'], [], some (false, ['9'])⟩)]]) :: [(some "op", .ofText "wrap"),
      (some "node", .ofWord 0)]))).Written
      "\x7b\"calls\":[\x7b\"child\" : [\x7b\"op\":1e9\x7d],\"op\":\"wrap\",\"node\":0\x7d]\x7d" := by
    refine Json.row_of_tokens? ?_
    decide +kernel
  have hrepeated : ((Site.inObject [] [] [] []).document (.object ([(some "op", .ofText "wrap"),
      (some "node", .ofWord 0)] ++ (some "op", .null) :: []))).Written
      "\x7b\"calls\":[\x7b\"op\":\"wrap\",\"node\":0,\"\\u006fp\":null\x7d]\x7d" := by
    refine Json.row_of_tokens? ?_
    decide +kernel
  refine ⟨hparse, (parse?_insert hparse htext hunknown).1 ?_ ?_, (parse?_insert hparse htext hrepeated).2 ?_ ?_⟩
  · rw [List.nil_append, hknown]
    decide
  · exact (Site.admits_iff hsite).2 (by decide +kernel)
  · rw [List.append_nil, hknown]
    decide
  · decide

end Script

end SyntaxTree
