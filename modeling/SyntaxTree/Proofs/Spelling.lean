import Mathlib.Data.List.Chain
import SyntaxTree.Json.Token

/-!
# What JSON tokens look like

The scanner of tokens says how a text is read. This file says what a text is: which characters a string may hold and
which escapes there are, of what parts a number is made, and that blanks may stand around all tokens (`Row`). None of
this looks at the scanner.

The main results tie the two together. What the scanner reads off a text is a row of tokens that the text is made of
(`row_of_tokens?`), and of a text that is made of a row of tokens it reads that row (`tokens?_of_row`), unless two
numbers follow each other, which nothing would keep apart.
-/

namespace SyntaxTree.Json

/-! ## Strings -/

/-- The escapes of two characters: what stands after the backslash, and what it means. -/
def shortEscapes : List (Char × Char) :=
  [('"', '"'), ('\\', '\\'), ('/', '/'), ('b', '\x08'), ('f', '\x0c'), ('n', '\n'), ('r', '\r'), ('t', '\t')]

/-- The hexadecimal digits and their values. -/
def hexDigits : List (Char × Nat) :=
  [('0', 0), ('1', 1), ('2', 2), ('3', 3), ('4', 4), ('5', 5), ('6', 6), ('7', 7), ('8', 8), ('9', 9),
    ('a', 10), ('b', 11), ('c', 12), ('d', 13), ('e', 14), ('f', 15),
    ('A', 10), ('B', 11), ('C', 12), ('D', 13), ('E', 14), ('F', 15)]

/-- How an element of a string is written: a character as itself, unless it is a control character, a quote or a
backslash, or by an escape; a code unit by four hexadecimal digits. -/
inductive ItemText : StringItem → List Char → Prop where
  | plain {c : Char} : ' ' ≤ c → c ≠ '"' → c ≠ '\\' → ItemText (.char c) [c]
  | short {k c : Char} : (k, c) ∈ shortEscapes → ItemText (.char c) ['\\', k]
  | unit {a b c d : Char} {v w x y : Nat} : (a, v) ∈ hexDigits → (b, w) ∈ hexDigits → (c, x) ∈ hexDigits →
      (d, y) ∈ hexDigits → ItemText (.unit (((v * 16 + w) * 16 + x) * 16 + y)) ['\\', 'u', a, b, c, d]

/-- What stands between the quotes. -/
inductive ItemsText : List StringItem → List Char → Prop where
  | nil : ItemsText [] []
  | cons {item : StringItem} {items : List StringItem} {cs ds : List Char} : ItemText item cs → ItemsText items ds →
      ItemsText (item :: items) (cs ++ ds)

/-- The characters that elements of a string spell. Code units outside the surrogates stand for themselves, and two
surrogates for one character, if the first is a high and the second a low one. -/
inductive Spells : List StringItem → List Char → Prop where
  | nil : Spells [] []
  | char {c : Char} {items : List StringItem} {cs : List Char} : Spells items cs → Spells (.char c :: items) (c :: cs)
  | unit {code : Nat} {items : List StringItem} {cs : List Char} : code < 0xD800 ∨ 0xE000 ≤ code → Spells items cs →
      Spells (.unit code :: items) (Char.ofNat code :: cs)
  | pair {high low : Nat} {items : List StringItem} {cs : List Char} : 0xD800 ≤ high → high < 0xDC00 → 0xDC00 ≤ low →
      low < 0xE000 → Spells items cs → Spells (.unit high :: .unit low :: items)
        (Char.ofNat (0x10000 + (high - 0xD800) * 0x400 + (low - 0xDC00)) :: cs)

theorem shortEscape?_eq_some_iff {k c : Char} : shortEscape? k = some c ↔ (k, c) ∈ shortEscapes := by
  constructor
  · intro h
    unfold shortEscape? at h
    split at h <;> cases h <;> decide
  · intro h
    have hall : ∀ p ∈ shortEscapes, shortEscape? p.1 = some p.2 := by decide
    exact hall _ h

theorem hexValue?_eq_some_iff {c : Char} {v : Nat} : hexValue? c = some v ↔ (c, v) ∈ hexDigits := by
  constructor
  · intro h
    have hsmall : ∀ n < 128, ∀ v ∈ hexValue? (Char.ofNat n), (Char.ofNat n, v) ∈ hexDigits := by decide +kernel
    have hle : c ≤ 'f' := by
      unfold hexValue? at h
      split_ifs at h with hdigit hlower hupper
      · exact Char.le_trans hdigit.2 (by decide)
      · exact hlower.2
      · exact Char.le_trans hupper.2 (by decide)
    have hlt : c.toNat < 128 := Nat.lt_of_le_of_lt (show c.toNat ≤ 'f'.toNat from hle) (by decide)
    have hc := hsmall c.toNat hlt v
    rw [Char.ofNat_toNat] at hc
    exact hc h
  · intro h
    have hall : ∀ p ∈ hexDigits, hexValue? p.1 = some p.2 := by decide
    exact hall _ h

theorem hexUnit?_eq_some_iff {a b c d : Char} {code : Nat} : hexUnit? a b c d = some code ↔
    ∃ v w x y, (a, v) ∈ hexDigits ∧ (b, w) ∈ hexDigits ∧ (c, x) ∈ hexDigits ∧ (d, y) ∈ hexDigits ∧
      code = ((v * 16 + w) * 16 + x) * 16 + y := by
  simp only [hexUnit?, Option.bind_eq_bind, Option.bind_eq_some_iff, hexValue?_eq_some_iff, Option.pure_def,
    Option.some.injEq]
  constructor
  · rintro ⟨v, hv, w, hw, x, hx, y, hy, rfl⟩
    exact ⟨v, w, x, y, hv, hw, hx, hy, rfl⟩
  · rintro ⟨v, w, x, y, hv, hw, hx, hy, rfl⟩
    exact ⟨v, hv, w, hw, x, hx, y, hy, rfl⟩

/-- No escape of two characters is led in like one of six. -/
theorem ne_of_mem_shortEscapes {k c : Char} (h : (k, c) ∈ shortEscapes) : k ≠ 'u' := by
  have hall : ∀ p ∈ shortEscapes, p.1 ≠ 'u' := by decide
  exact hall _ h

theorem stringItems?_append {items : List StringItem} {body : List Char} (h : ItemsText items body) (rest : List Char) :
    stringItems? (body ++ '"' :: rest) = some (items, rest) := by
  induction h with
  | nil => rw [List.nil_append, stringItems?]
  | cons hitem _ ih =>
    rw [List.append_assoc]
    cases hitem with
    | @plain c hblank hquote hbackslash =>
      have hallowed : ¬ (decide (c < ' ') || c == '\\') = true := by
        simpa [hbackslash] using hblank
      rw [List.cons_append, List.nil_append, stringItems?, if_neg hallowed, ih]
      · rfl
      · exact hquote
      · exact fun _ _ _ _ _ h _ => hbackslash h
      · exact fun _ _ h _ => hbackslash h
    | short hmem =>
      rw [List.cons_append, List.cons_append, List.nil_append, stringItems?, shortEscape?_eq_some_iff.2 hmem]
      · simp [ih, StringItem.before]
      · intro a b c d rest hu
        exact absurd hu (ne_of_mem_shortEscapes hmem)
    | unit ha hb hc hd =>
      have hunit := hexUnit?_eq_some_iff.2 ⟨_, _, _, _, ha, hb, hc, hd, rfl⟩
      simp only [List.cons_append, List.nil_append, stringItems?, hunit, ih, Option.map_some, StringItem.before]

theorem map_before_eq_some {item : StringItem} {read : Option (List StringItem × List Char)} {items : List StringItem}
    {rest : List Char} (h : read.map item.before = some (items, rest)) :
    ∃ more, read = some (more, rest) ∧ items = item :: more := by
  obtain ⟨⟨more, rest'⟩, hread, he⟩ := Option.map_eq_some_iff.1 h
  obtain ⟨rfl, rfl⟩ := Prod.mk.inj he
  exact ⟨more, hread, rfl⟩

theorem itemsText_of_stringItems? {cs rest : List Char} {items : List StringItem}
    (h : stringItems? cs = some (items, rest)) : ∃ body, ItemsText items body ∧ cs = body ++ '"' :: rest := by
  fun_induction stringItems? cs generalizing items rest with
  | case1 | case3 | case5 | case7 => cases h
  | case2 =>
    obtain ⟨rfl, rfl⟩ := Prod.mk.inj (Option.some.inj h)
    exact ⟨[], .nil, rfl⟩
  | case4 a b c d rest' code hunit ih =>
    obtain ⟨more, hread, rfl⟩ := map_before_eq_some h
    obtain ⟨body, hbody, rfl⟩ := ih hread
    obtain ⟨v, w, x, y, ha, hb, hc, hd, rfl⟩ := hexUnit?_eq_some_iff.1 hunit
    exact ⟨_, .cons (.unit ha hb hc hd) hbody, rfl⟩
  | case6 escape rest' _ c hshort ih =>
    obtain ⟨more, hread, rfl⟩ := map_before_eq_some h
    obtain ⟨body, hbody, rfl⟩ := ih hread
    exact ⟨_, .cons (.short (shortEscape?_eq_some_iff.1 hshort)) hbody, rfl⟩
  | case8 c rest' hquote _ _ hallowed ih =>
    obtain ⟨more, hread, rfl⟩ := map_before_eq_some h
    obtain ⟨body, hbody, rfl⟩ := ih hread
    simp only [Bool.or_eq_true, decide_eq_true_eq, beq_iff_eq, not_or, Char.not_lt] at hallowed
    exact ⟨_, .cons (.plain hallowed.1 hquote hallowed.2) hbody, rfl⟩

theorem isHighSurrogate_iff {code : Nat} : isHighSurrogate code = true ↔ 0xD800 ≤ code ∧ code < 0xDC00 := by
  simp [isHighSurrogate]

theorem isLowSurrogate_iff {code : Nat} : isLowSurrogate code = true ↔ 0xDC00 ≤ code ∧ code < 0xE000 := by
  simp [isLowSurrogate]

theorem spells_of_spelled? {items : List StringItem} {cs : List Char} (h : spelled? items = some cs) :
    Spells items cs := by
  fun_induction spelled? items generalizing cs with
  | case1 =>
    obtain rfl := Option.some.inj h
    exact .nil
  | case2 c items ih =>
    obtain ⟨more, hmore, rfl⟩ := Option.map_eq_some_iff.1 h
    exact .char (ih hmore)
  | case3 high low items hhigh hlow code =>
    rename_i ih
    obtain ⟨more, hmore, rfl⟩ := Option.map_eq_some_iff.1 h
    obtain ⟨hge, hlt⟩ := isHighSurrogate_iff.1 hhigh
    obtain ⟨hge', hlt'⟩ := isLowSurrogate_iff.1 hlow
    exact .pair hge hlt hge' hlt' (ih hmore)
  | case4 | case5 | case7 => cases h
  | case6 code low items hhigh hlow ih =>
    obtain ⟨more, hmore, rfl⟩ := Option.map_eq_some_iff.1 h
    rw [isHighSurrogate_iff] at hhigh
    rw [isLowSurrogate_iff] at hlow
    exact .unit (by omega) (ih hmore)
  | case8 code items _ hcode ih =>
    obtain ⟨more, hmore, rfl⟩ := Option.map_eq_some_iff.1 h
    rw [Bool.or_eq_true, isHighSurrogate_iff, isLowSurrogate_iff] at hcode
    exact .unit (by omega) (ih hmore)

/-- A code unit that is no surrogate stands for itself, whatever comes next. -/
theorem spelled?_unit {code : Nat} (hhigh : isHighSurrogate code = false) (hlow : isLowSurrogate code = false)
    (items : List StringItem) : spelled? (.unit code :: items) = (spelled? items).map (Char.ofNat code :: ·) := by
  rcases items with _ | ⟨c | low, items⟩ <;> simp [spelled?, hhigh, hlow]

theorem spelled?_of_spells {items : List StringItem} {cs : List Char} (h : Spells items cs) :
    spelled? items = some cs := by
  induction h with
  | nil => rfl
  | char _ ih => rw [spelled?, ih]; rfl
  | @unit code items cs hcode _ ih =>
    have hhigh : isHighSurrogate code = false := by
      rw [← Bool.not_eq_true, isHighSurrogate_iff]
      omega
    have hlow : isLowSurrogate code = false := by
      rw [← Bool.not_eq_true, isLowSurrogate_iff]
      omega
    rw [spelled?_unit hhigh hlow, ih]
    rfl
  | pair hhigh hhigh' hlow hlow' _ ih =>
    rw [spelled?, if_pos (isHighSurrogate_iff.2 ⟨hhigh, hhigh'⟩), if_pos (isLowSurrogate_iff.2 ⟨hlow, hlow'⟩), ih]
    rfl

/-! ## Numbers -/

/-- At least one decimal digit, and nothing else. -/
def Digits (ds : List Char) : Prop :=
  ds ≠ [] ∧ ∀ c ∈ ds, c.isDigit = true

theorem Digits.isDigit_of_append_eq {ds rest tail : List Char} {c : Char} (h : Digits ds)
    (heq : ds ++ rest = c :: tail) : c.isDigit = true := by
  obtain ⟨d, ds', rfl⟩ := List.exists_cons_of_ne_nil h.1
  obtain ⟨rfl, -⟩ := List.cons.inj heq
  exact h.2 d List.mem_cons_self

/-- How the whole part of a number is written: a zero alone, or digits of which the first is not zero. -/
def WholeText (ds : List Char) : Prop :=
  ds = ['0'] ∨ Digits ds ∧ ds.head? ≠ some '0'

theorem WholeText.exists_digit {ds : List Char} (h : WholeText ds) : ∃ c cs, ds = c :: cs ∧ c.isDigit = true := by
  rcases h with rfl | ⟨⟨hne, hdigits⟩, -⟩
  · exact ⟨'0', [], rfl, rfl⟩
  · obtain ⟨c, cs, rfl⟩ := List.exists_cons_of_ne_nil hne
    exact ⟨c, cs, rfl, hdigits c List.mem_cons_self⟩

/-- How the fraction of a number is written, if there is one. -/
inductive FractionText : List Char → List Char → Prop where
  | none : FractionText [] []
  | some {ds : List Char} : Digits ds → FractionText ds ('.' :: ds)

/-- The signs of an exponent, and which of them is a minus. -/
def exponentSigns : List (List Char × Bool) :=
  [([], false), (['+'], false), (['-'], true)]

/-- How the exponent of a number is written, if there is one. -/
inductive ExponentText : Option (Bool × List Char) → List Char → Prop where
  | none : ExponentText none []
  | some {mark : Char} {sign ds : List Char} {negative : Bool} : mark = 'e' ∨ mark = 'E' →
      (sign, negative) ∈ exponentSigns → Digits ds → ExponentText (some (negative, ds)) (mark :: (sign ++ ds))

/-- How a number is written. -/
inductive NumberText : Number → List Char → Prop where
  | mk {whole fraction point mark : List Char} {exponent : Option (Bool × List Char)} (negative : Bool) :
      WholeText whole → FractionText fraction point → ExponentText exponent mark →
      NumberText ⟨negative, whole, fraction, exponent⟩ ((if negative then ['-'] else []) ++ (whole ++ (point ++ mark)))

theorem NumberText.ne_nil {number : Number} {cs : List Char} (h : NumberText number cs) : cs ≠ [] := by
  obtain ⟨negative, hwhole, -, -⟩ := h
  obtain ⟨c, ds, rfl, -⟩ := hwhole.exists_digit
  simp

/-- Where a number ends: nothing comes, or something that no number goes on with. -/
def AfterNumber (xs : List Char) : Prop :=
  ∀ c ∈ xs.head?, c.isDigit = false ∧ c ≠ '.' ∧ c ≠ 'e' ∧ c ≠ 'E'

/-- Digits end where something else begins. -/
theorem span_digits {ds rest : List Char} (hds : ∀ c ∈ ds, c.isDigit = true)
    (hrest : ∀ c ∈ rest.head?, c.isDigit = false) :
    (ds ++ rest).takeWhile Char.isDigit = ds ∧ (ds ++ rest).dropWhile Char.isDigit = rest := by
  have hnone : rest.takeWhile Char.isDigit = [] ∧ rest.dropWhile Char.isDigit = rest := by
    cases rest with
    | nil => exact ⟨rfl, rfl⟩
    | cons c rest =>
      have hc : ¬ c.isDigit = true := by simp [hrest c rfl]
      exact ⟨List.takeWhile_cons_of_neg hc, List.dropWhile_cons_of_neg hc⟩
  rw [List.takeWhile_append_of_pos hds, List.dropWhile_append_of_pos hds, hnone.1, hnone.2, List.append_nil]
  exact ⟨rfl, rfl⟩

theorem wholeDigits?_append {whole rest : List Char} (h : WholeText whole)
    (hrest : ∀ c ∈ rest.head?, c.isDigit = false) : wholeDigits? (whole ++ rest) = some (whole, rest) := by
  rcases h with rfl | ⟨⟨hne, hdigits⟩, hzero⟩
  · rfl
  · obtain ⟨c, ds, rfl⟩ := List.exists_cons_of_ne_nil hne
    obtain ⟨hc, hds⟩ := List.forall_mem_cons.1 hdigits
    obtain ⟨htake, hdrop⟩ := span_digits hds hrest
    rw [List.cons_append, wholeDigits?, if_pos hc, htake, hdrop]
    rintro rfl
    exact hzero rfl

theorem someDigits?_append {ds rest : List Char} (h : Digits ds) (hrest : ∀ c ∈ rest.head?, c.isDigit = false) :
    someDigits? (ds ++ rest) = some (ds, rest) := by
  obtain ⟨htake, hdrop⟩ := span_digits h.2 hrest
  obtain ⟨c, ds', hds⟩ := List.exists_cons_of_ne_nil h.1
  rw [someDigits?, htake, hdrop, hds]

theorem fraction?_append {fraction point rest : List Char} (h : FractionText fraction point)
    (hrest : ∀ c ∈ rest.head?, c.isDigit = false ∧ c ≠ '.') : fraction? (point ++ rest) = some (fraction, rest) := by
  cases h with
  | none =>
    rw [List.nil_append]
    unfold fraction?
    split
    · next tail => exact absurd rfl (hrest '.' rfl).2
    · rfl
  | some hds =>
    rw [List.cons_append, fraction?, someDigits?_append hds fun c hc => (hrest c hc).1]

theorem exponentDigits?_append {sign ds rest : List Char} {negative : Bool} (hsign : (sign, negative) ∈ exponentSigns)
    (hds : Digits ds) (hrest : ∀ c ∈ rest.head?, c.isDigit = false) :
    exponentDigits? (sign ++ (ds ++ rest)) = some ((negative, ds), rest) := by
  have hread := someDigits?_append hds hrest
  simp only [exponentSigns, List.mem_cons, List.not_mem_nil, or_false, Prod.mk.injEq] at hsign
  rcases hsign with ⟨rfl, rfl⟩ | ⟨rfl, rfl⟩ | ⟨rfl, rfl⟩
  · rw [List.nil_append]
    unfold exponentDigits?
    split
    · next heq => exact absurd (hds.isDigit_of_append_eq heq) (by decide)
    · next heq => exact absurd (hds.isDigit_of_append_eq heq) (by decide)
    · rw [hread]; rfl
  · rw [List.cons_append, List.nil_append, exponentDigits?, hread]; rfl
  · rw [List.cons_append, List.nil_append, exponentDigits?, hread]; rfl

theorem exponent?_append {exponent : Option (Bool × List Char)} {mark rest : List Char} (h : ExponentText exponent mark)
    (hrest : AfterNumber rest) : exponent? (mark ++ rest) = some (exponent, rest) := by
  cases h with
  | none =>
    rw [List.nil_append]
    unfold exponent?
    split
    · exact absurd rfl (hrest 'e' rfl).2.2.1
    · exact absurd rfl (hrest 'E' rfl).2.2.2
    · rfl
  | some hmark hsign hds =>
    have hread := exponentDigits?_append hsign hds fun c hc => (hrest c hc).1
    rcases hmark with rfl | rfl <;> rw [List.cons_append, List.append_assoc, exponent?, hread] <;> rfl

theorem number?_append {whole fraction point mark rest : List Char} {exponent : Option (Bool × List Char)}
    (negative : Bool) (hwhole : WholeText whole) (hfraction : FractionText fraction point)
    (hexponent : ExponentText exponent mark) (hrest : AfterNumber rest) :
    number? negative (whole ++ (point ++ mark) ++ rest)
      = some (.number ⟨negative, whole, fraction, exponent⟩, rest) := by
  -- no part of a number is taken for more of the part before it
  have hmark : ∀ c ∈ (mark ++ rest).head?, c.isDigit = false ∧ c ≠ '.' := by
    intro c hc
    cases hexponent with
    | none => exact ⟨(hrest c hc).1, (hrest c hc).2.1⟩
    | some he _ _ =>
      obtain rfl := Option.some.inj hc
      rcases he with rfl | rfl <;> decide
  have hpoint : ∀ c ∈ (point ++ (mark ++ rest)).head?, c.isDigit = false := by
    intro c hc
    cases hfraction with
    | none => exact (hmark c hc).1
    | some _ =>
      obtain rfl := Option.some.inj hc
      rfl
  rw [number?, List.append_assoc, List.append_assoc, wholeDigits?_append hwhole hpoint]
  simp only [Option.bind_eq_bind, Option.bind_some, fraction?_append hfraction hmark, exponent?_append hexponent hrest]
  rfl

/-! What is read of a number is written as a number. -/

theorem isDigit_of_mem_takeWhile (cs : List Char) : ∀ c ∈ cs.takeWhile Char.isDigit, c.isDigit = true :=
  List.all_eq_true.1 List.all_takeWhile

theorem wholeText_of_wholeDigits? {cs rest whole : List Char} (h : wholeDigits? cs = some (whole, rest)) :
    WholeText whole ∧ cs = whole ++ rest := by
  unfold wholeDigits? at h
  split at h
  · obtain ⟨rfl, rfl⟩ := Prod.mk.inj (Option.some.inj h)
    exact ⟨.inl rfl, rfl⟩
  · next c tail hzero =>
    split at h
    · next hc =>
      obtain ⟨rfl, rfl⟩ := Prod.mk.inj (Option.some.inj h)
      refine ⟨.inr ⟨⟨List.cons_ne_nil _ _, List.forall_mem_cons.2 ⟨hc, isDigit_of_mem_takeWhile tail⟩⟩, ?_⟩, ?_⟩
      · rintro he
        exact hzero (Option.some.inj he)
      · rw [List.cons_append, List.takeWhile_append_dropWhile]
    · cases h
  · cases h

theorem digits_of_someDigits? {cs rest ds : List Char} (h : someDigits? cs = some (ds, rest)) :
    Digits ds ∧ cs = ds ++ rest := by
  have hsplit := List.takeWhile_append_dropWhile (p := Char.isDigit) (l := cs)
  have hdigits := isDigit_of_mem_takeWhile cs
  unfold someDigits? at h
  split at h
  · cases h
  · next hne =>
    obtain ⟨rfl, rfl⟩ := Prod.mk.inj (Option.some.inj h)
    exact ⟨⟨hne, hdigits⟩, hsplit.symm⟩

theorem fractionText_of_fraction? {cs rest fraction : List Char} (h : fraction? cs = some (fraction, rest)) :
    ∃ point, FractionText fraction point ∧ cs = point ++ rest := by
  unfold fraction? at h
  split at h
  · obtain ⟨hds, rfl⟩ := digits_of_someDigits? h
    exact ⟨_, .some hds, rfl⟩
  · obtain ⟨rfl, rfl⟩ := Prod.mk.inj (Option.some.inj h)
    exact ⟨[], .none, rfl⟩

theorem exponentText_of_exponentDigits? {cs rest ds : List Char} {negative : Bool}
    (h : exponentDigits? cs = some ((negative, ds), rest)) :
    ∃ sign, (sign, negative) ∈ exponentSigns ∧ Digits ds ∧ cs = sign ++ (ds ++ rest) := by
  unfold exponentDigits? at h
  split at h
  all_goals
    obtain ⟨⟨ds', rest'⟩, hread, he⟩ := Option.map_eq_some_iff.1 h
    obtain ⟨hdigits, rfl⟩ := Prod.mk.inj he
    obtain ⟨rfl, rfl⟩ := Prod.mk.inj hdigits
    obtain ⟨hds, rfl⟩ := digits_of_someDigits? hread
  · exact ⟨['+'], by simp [exponentSigns], hds, rfl⟩
  · exact ⟨['-'], by simp [exponentSigns], hds, rfl⟩
  · exact ⟨[], by simp [exponentSigns], hds, rfl⟩

theorem exponentText_of_exponent? {cs rest : List Char} {exponent : Option (Bool × List Char)}
    (h : exponent? cs = some (exponent, rest)) : ∃ mark, ExponentText exponent mark ∧ cs = mark ++ rest := by
  have hmarked : ∀ tail, (exponentDigits? tail).map (fun read => (some read.1, read.2)) = some (exponent, rest) →
      ∃ sign negative ds, exponent = some (negative, ds) ∧ (sign, negative) ∈ exponentSigns ∧ Digits ds ∧
        tail = sign ++ (ds ++ rest) := by
    intro tail hread
    obtain ⟨⟨⟨negative, ds⟩, rest'⟩, hfound, he⟩ := Option.map_eq_some_iff.1 hread
    obtain ⟨rfl, rfl⟩ := Prod.mk.inj he
    obtain ⟨sign, hsign, hds, rfl⟩ := exponentText_of_exponentDigits? hfound
    exact ⟨sign, negative, ds, rfl, hsign, hds, rfl⟩
  unfold exponent? at h
  split at h
  · obtain ⟨sign, negative, ds, rfl, hsign, hds, rfl⟩ := hmarked _ h
    exact ⟨_, .some (.inl rfl) hsign hds, by rw [List.cons_append, List.append_assoc]⟩
  · obtain ⟨sign, negative, ds, rfl, hsign, hds, rfl⟩ := hmarked _ h
    exact ⟨_, .some (.inr rfl) hsign hds, by rw [List.cons_append, List.append_assoc]⟩
  · obtain ⟨rfl, rfl⟩ := Prod.mk.inj (Option.some.inj h)
    exact ⟨[], .none, rfl⟩

theorem numberText_of_number? {negative : Bool} {cs rest : List Char} {token : Token}
    (h : number? negative cs = some (token, rest)) : ∃ number unsigned, token = .number number ∧
      NumberText number ((if negative then ['-'] else []) ++ unsigned) ∧ cs = unsigned ++ rest := by
  simp only [number?, Option.bind_eq_bind, Option.bind_eq_some_iff, Prod.exists] at h
  obtain ⟨whole, rest₁, hwhole, fraction, rest₂, hfraction, exponent, rest₃, hexponent, heq⟩ := h
  obtain ⟨rfl, rfl⟩ := Prod.mk.inj (Option.some.inj heq)
  obtain ⟨hw, rfl⟩ := wholeText_of_wholeDigits? hwhole
  obtain ⟨point, hf, rfl⟩ := fractionText_of_fraction? hfraction
  obtain ⟨mark, he, rfl⟩ := exponentText_of_exponent? hexponent
  exact ⟨_, _, rfl, .mk negative hw hf he, by simp only [List.append_assoc]⟩

/-! ## Tokens -/

/-- The tokens that are written in one way only. -/
def marks : List (Token × List Char) :=
  [(.openBrace, ['\x7b']), (.closeBrace, ['\x7d']), (.openBracket, ['[']), (.closeBracket, [']']), (.comma, [',']),
    (.colon, [':']), (.null, ['n', 'u', 'l', 'l']), (.boolean true, ['t', 'r', 'u', 'e']),
    (.boolean false, ['f', 'a', 'l', 's', 'e'])]

/-- How a token is written. A string spells a text unless half a surrogate pair stands alone in it. -/
inductive TokenText : Token → List Char → Prop where
  | mark {token : Token} {cs : List Char} : (token, cs) ∈ marks → TokenText token cs
  | string {items : List StringItem} {body : List Char} {text : String} : ItemsText items body →
      Spells items text.toList → TokenText (.string (some text)) ('"' :: (body ++ ['"']))
  | halved {items : List StringItem} {body : List Char} : ItemsText items body → (∀ cs, ¬ Spells items cs) →
      TokenText (.string none) ('"' :: (body ++ ['"']))
  | number {number : Number} {cs : List Char} : NumberText number cs → TokenText (.number number) cs

/-- The characters that may stand between tokens. -/
def blanks : List Char :=
  [' ', '\t', '\n', '\r']

/-- A text is made of tokens, in their order and with any blanks around them. -/
inductive Row : List Token → List Char → Prop where
  | nil {blank : List Char} : (∀ c ∈ blank, c ∈ blanks) → Row [] blank
  | cons {token : Token} {tokens : List Token} {blank word rest : List Char} : (∀ c ∈ blank, c ∈ blanks) →
      TokenText token word → Row tokens rest → Row (token :: tokens) (blank ++ (word ++ rest))

theorem Row.singleton {token : Token} {word : List Char} (h : TokenText token word) : Row [token] word := by
  have hrow : Row [token] ([] ++ (word ++ [])) := .cons nofun h (.nil nofun)
  rwa [List.nil_append, List.append_nil] at hrow

theorem Row.blanks {tokens : List Token} {cs blank : List Char} (h : Row tokens cs) (hblank : ∀ c ∈ blank, c ∈ blanks) :
    Row tokens (blank ++ cs) := by
  cases h with
  | nil hmore => exact .nil fun c hc => (List.mem_append.1 hc).elim (hblank c) (hmore c)
  | cons hmore hword hrest =>
    rw [← List.append_assoc]
    exact .cons (fun c hc => (List.mem_append.1 hc).elim (hblank c) (hmore c)) hword hrest

/-- Texts of rows may be put behind each other. -/
theorem Row.append {tokens tokens' : List Token} {cs ds : List Char} (h : Row tokens cs) (h' : Row tokens' ds) :
    Row (tokens ++ tokens') (cs ++ ds) := by
  induction h with
  | nil hblank => exact h'.blanks hblank
  | cons hblank hword _ ih =>
    rw [List.append_assoc, List.append_assoc]
    exact .cons hblank hword ih

/-- The text of a row of tokens falls apart where the row does. -/
theorem Row.split {tokens tokens' : List Token} {cs : List Char} (h : Row (tokens ++ tokens') cs) :
    ∃ front back, cs = front ++ back ∧ Row tokens front ∧ Row tokens' back := by
  induction tokens generalizing cs with
  | nil => exact ⟨[], cs, rfl, .nil nofun, h⟩
  | cons token tokens ih =>
    rw [List.cons_append] at h
    cases h with
    | @cons _ _ blank word rest hblank hword hrest =>
      obtain ⟨front, back, rfl, hfront, hback⟩ := ih hrest
      exact ⟨blank ++ (word ++ front), back, by simp, .cons hblank hword hfront, hback⟩

/-- Whether the token is a number. -/
def Token.isNumber : Token → Bool
  | .number _ => true
  | _ => false

/-- No two numbers follow each other. -/
def Spaced (tokens : List Token) : Prop :=
  tokens.IsChain fun a b => a.isNumber = true → b.isNumber = false

theorem isBlank_iff {c : Char} : isBlank c = true ↔ c ∈ blanks := by
  simp [isBlank, blanks, or_assoc]

theorem string?_append {items : List StringItem} {body : List Char} (h : ItemsText items body) (rest : List Char) :
    string? (body ++ ['"'] ++ rest) = some (.string ((spelled? items).map String.ofList), rest) := by
  rw [string?, List.append_assoc, List.cons_append, List.nil_append, stringItems?_append h]
  rfl

/-- A token that begins with a digit is a number. -/
theorem token?_digit {c : Char} (hc : c.isDigit = true) (rest : List Char) :
    token? c rest = number? false (c :: rest) := by
  unfold token?
  split <;> first | exact absurd hc (by decide) | rw [if_pos hc]

theorem isBlank_of_isDigit {c : Char} (hc : c.isDigit = true) : isBlank c = false := by
  rw [← Bool.not_eq_true, isBlank_iff]
  have hnone : ∀ c ∈ blanks, c.isDigit = false := by simp [blanks]
  intro hmem
  rw [hnone c hmem] at hc
  cases hc

/-- What is written as a token is read as that token. -/
theorem token?_append {token : Token} {word rest : List Char} (h : TokenText token word)
    (hrest : token.isNumber = true → AfterNumber rest) : ∃ c cs, word = c :: cs ∧ isBlank c = false ∧
      token? c (cs ++ rest) = some (token, rest) := by
  cases h with
  | mark hmem =>
    simp only [marks, List.mem_cons, List.not_mem_nil, or_false, Prod.mk.injEq] at hmem
    rcases hmem with ⟨rfl, rfl⟩ | ⟨rfl, rfl⟩ | ⟨rfl, rfl⟩ | ⟨rfl, rfl⟩ | ⟨rfl, rfl⟩ | ⟨rfl, rfl⟩ | ⟨rfl, rfl⟩ |
      ⟨rfl, rfl⟩ | ⟨rfl, rfl⟩ <;> exact ⟨_, _, rfl, rfl, rfl⟩
  | string hitems hspells =>
    refine ⟨_, _, rfl, rfl, ?_⟩
    rw [token?, string?_append hitems, spelled?_of_spells hspells, Option.map_some, String.ofList_toList]
  | @halved items body hitems hnone =>
    refine ⟨_, _, rfl, rfl, ?_⟩
    have hspelled : spelled? items = none := by
      rw [Option.eq_none_iff_forall_ne_some]
      exact fun cs hcs => hnone cs (spells_of_spelled? hcs)
    rw [token?, string?_append hitems, hspelled]
    rfl
  | number hnumber =>
    obtain ⟨negative, hwhole, hfraction, hexponent⟩ := hnumber
    have hread := number?_append negative hwhole hfraction hexponent (hrest rfl)
    cases negative with
    | true =>
      refine ⟨'-', _, rfl, rfl, ?_⟩
      rw [token?]
      exact hread
    | false =>
      obtain ⟨c, cs, rfl, hc⟩ := hwhole.exists_digit
      refine ⟨c, _, rfl, isBlank_of_isDigit hc, ?_⟩
      rw [token?_digit hc]
      exact hread

/-- What is read as a token is written as that token. -/
theorem tokenText_of_token? {c : Char} {cs rest : List Char} {token : Token} (h : token? c cs = some (token, rest)) :
    ∃ word, TokenText token (c :: word) ∧ cs = word ++ rest := by
  unfold token? at h
  split at h
  case h_7 =>
    simp only [string?, Option.bind_eq_bind, Option.bind_eq_some_iff, Prod.exists] at h
    obtain ⟨items, rest', hitems, he⟩ := h
    obtain ⟨rfl, rfl⟩ := Prod.mk.inj (Option.some.inj he)
    obtain ⟨body, hbody, rfl⟩ := itemsText_of_stringItems? hitems
    refine ⟨body ++ ['"'], ?_, by simp⟩
    cases hspelled : spelled? items with
    | some chars =>
      refine .string hbody ?_
      rw [String.toList_ofList]
      exact spells_of_spelled? hspelled
    | none =>
      refine .halved hbody fun chars hchars => ?_
      rw [spelled?_of_spells hchars] at hspelled
      cases hspelled
  case h_11 =>
    obtain ⟨number, unsigned, rfl, hnumber, rfl⟩ := numberText_of_number? h
    exact ⟨unsigned, .number hnumber, rfl⟩
  case h_12 =>
    split at h
    · obtain ⟨number, unsigned, rfl, hnumber, he⟩ := numberText_of_number? h
      rw [if_neg Bool.false_ne_true, List.nil_append] at hnumber
      obtain ⟨d, unsigned, rfl⟩ := List.exists_cons_of_ne_nil hnumber.ne_nil
      obtain ⟨rfl, rfl⟩ := List.cons.inj he
      exact ⟨unsigned, .number hnumber, rfl⟩
    · cases h
  all_goals obtain ⟨rfl, rfl⟩ := Prod.mk.inj (Option.some.inj h)
  case h_8 => exact ⟨['u', 'l', 'l'], .mark (by decide), rfl⟩
  case h_9 => exact ⟨['r', 'u', 'e'], .mark (by decide), rfl⟩
  case h_10 => exact ⟨['a', 'l', 's', 'e'], .mark (by decide), rfl⟩
  all_goals exact ⟨[], .mark (by decide), rfl⟩

/-! ## Rows -/

theorem tokens?_blanks {blank : List Char} (h : ∀ c ∈ blank, c ∈ blanks) (cs : List Char) :
    tokens? (blank ++ cs) = tokens? cs := by
  induction blank with
  | nil => rfl
  | cons c blank ih =>
    obtain ⟨hc, hblank⟩ := List.forall_mem_cons.1 h
    rw [List.cons_append, tokens?, if_pos (isBlank_iff.2 hc), ih hblank]

theorem tokens?_cons {c : Char} {cs rest : List Char} {token : Token} (hc : isBlank c = false)
    (htoken : token? c cs = some (token, rest)) : tokens? (c :: cs) = (tokens? rest).map (token :: ·) := by
  rw [tokens?, if_neg (by simp [hc])]
  split
  · next hnone =>
    rw [htoken] at hnone
    cases hnone
  · next token' rest' hsome =>
    rw [htoken] at hsome
    obtain ⟨rfl, rfl⟩ := Prod.mk.inj (Option.some.inj hsome)
    rfl

theorem afterNumber_of_mem_blanks {c : Char} {cs : List Char} (hc : c ∈ blanks) : AfterNumber (c :: cs) := by
  have hall : ∀ c ∈ blanks, c.isDigit = false ∧ c ≠ '.' ∧ c ≠ 'e' ∧ c ≠ 'E' := by simp [blanks]
  intro d hd
  obtain rfl := Option.some.inj hd
  exact hall c hc

theorem TokenText.afterNumber {token : Token} {word : List Char} (h : TokenText token word)
    (hnumber : token.isNumber = false) (rest : List Char) : AfterNumber (word ++ rest) := by
  have hmarks : ∀ p ∈ marks, ∃ c cs, p.2 = c :: cs ∧ c.isDigit = false ∧ c ≠ '.' ∧ c ≠ 'e' ∧ c ≠ 'E' := by
    simp [marks, Char.isDigit]
  intro d hd
  cases h with
  | mark hmem =>
    obtain ⟨c, cs, hword, hc⟩ := hmarks _ hmem
    obtain rfl : _ = word := hword.symm
    obtain rfl := Option.some.inj hd
    exact hc
  | string | halved =>
    obtain rfl := Option.some.inj hd
    decide
  | number => cases hnumber

/-- A number ends where blanks begin, or another token that is no number. -/
theorem Row.afterNumber {tokens : List Token} {cs : List Char} (h : Row tokens cs)
    (hhead : ∀ token ∈ tokens.head?, token.isNumber = false) : AfterNumber cs := by
  cases h with
  | nil hblank =>
    cases cs with
    | nil => nofun
    | cons c cs => exact afterNumber_of_mem_blanks (hblank c List.mem_cons_self)
  | @cons token tokens blank word rest hblank hword _ =>
    cases blank with
    | nil => exact hword.afterNumber (hhead token rfl) rest
    | cons c blank => exact afterNumber_of_mem_blanks (hblank c List.mem_cons_self)

/-- Of a text that is made of a row of tokens, that row is read. -/
theorem tokens?_of_row {tokens : List Token} {cs : List Char} (h : Row tokens cs) (hspaced : Spaced tokens) :
    tokens? cs = some tokens := by
  induction h with
  | @nil blank hblank =>
    have hread := tokens?_blanks hblank []
    rw [List.append_nil] at hread
    rw [hread, tokens?]
  | @cons token tokens blank word rest hblank hword hrest ih =>
    obtain ⟨hnext, hspaced⟩ := List.isChain_cons.1 hspaced
    have hend : token.isNumber = true → AfterNumber rest := fun hnumber =>
      hrest.afterNumber fun next hmem => hnext next hmem hnumber
    obtain ⟨c, cs, rfl, hc, hread⟩ := token?_append hword hend
    rw [tokens?_blanks hblank, List.cons_append, tokens?_cons hc hread, ih hspaced]
    rfl

/-- What is read off a text is a row of tokens that the text is made of. -/
theorem row_of_tokens? {tokens : List Token} {cs : List Char} (h : tokens? cs = some tokens) : Row tokens cs := by
  fun_induction tokens? cs generalizing tokens with
  | case1 =>
    obtain rfl := Option.some.inj h
    exact .nil (by simp)
  | case2 c cs hc ih =>
    have hrow : Row tokens ([c] ++ cs) := (ih h).blanks (by simpa using isBlank_iff.1 hc)
    exact hrow
  | case3 => cases h
  | case4 c cs _ token rest hread ih =>
    obtain ⟨tokens, htokens, rfl⟩ := Option.map_eq_some_iff.1 h
    obtain ⟨word, hword, rfl⟩ := tokenText_of_token? hread
    have hrow : Row (token :: tokens) ([] ++ (c :: word ++ rest)) := .cons (by simp) hword (ih htokens)
    exact hrow

end SyntaxTree.Json
