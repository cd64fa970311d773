import Mathlib.Data.List.Basic
import SyntaxTree.Text.Quoted

/-!
# Numbers and quoted text can be read back

A dump writes numbers as digits and text between quotes, one after the other and with nothing that says where one ends.
Still none of it can be read in two ways: of two texts that go on from the same place, both begin with the same value
(`Readable`). Digits end where something else begins; quoted text ends at the first quote that no backslash leads in,
because no character is written as something that begins with a quote.
-/

namespace SyntaxTree.Text

/-- What stands for a value cannot be taken for another one, given what may come after it. -/
def Readable {α : Type} (follows : List Char → Prop) (spell : α → List Char) : Prop :=
  ∀ ⦃a b : α⦄ ⦃xs ys : List Char⦄, follows xs → follows ys → spell a ++ xs = spell b ++ ys → a = b ∧ xs = ys

variable {base n k : Nat} {c d : Char} {xs ys : List Char}

/-- What stands before the first of a kind of character cannot be taken for anything else. -/
theorem append_cons_inj_of_not_mem {as bs : List Char} (ha : c ∉ as) (hb : c ∉ bs) (h : as ++ c :: xs = bs ++ c :: ys) :
    as = bs ∧ xs = ys := by
  induction as generalizing bs with
  | nil =>
    cases bs with
    | nil => exact ⟨rfl, (List.cons.inj h).2⟩
    | cons b bs => exact absurd (List.mem_cons.2 (.inl (List.cons.inj h).1)) hb
  | cons a as ih =>
    cases bs with
    | nil => exact absurd (List.mem_cons.2 (.inl (List.cons.inj h).1.symm)) ha
    | cons b bs =>
      obtain ⟨rfl, htail⟩ := List.cons.inj h
      obtain ⟨rfl, hrest⟩ := ih (List.not_mem_of_not_mem_cons ha) (List.not_mem_of_not_mem_cons hb) htail
      exact ⟨rfl, hrest⟩

/-! ## Digits -/

/-- Where a number ends: nothing comes, or something that is no digit. -/
def AfterDigits (xs : List Char) : Prop :=
  ∀ c ∈ xs.head?, c.isDigit = false

theorem digitChar_inj (hn : n < 16) (hk : k < 16) (h : n.digitChar = k.digitChar) : n = k := by
  have hall : ∀ n < 16, ∀ k < 16, n.digitChar = k.digitChar → n = k := by decide
  exact hall n hn k hk h

/-- The digits of a number are those of the numbers below the base. -/
theorem exists_of_mem_toDigits (hbase : 1 < base) (hc : c ∈ Nat.toDigits base n) : ∃ d < base, c = d.digitChar := by
  induction n using Nat.strongRecOn with
  | ind n ih =>
  rw [Nat.toDigits_eq_if hbase] at hc
  split at hc
  · next hlt => exact ⟨n, hlt, List.mem_singleton.1 hc⟩
  · next hge =>
    rcases List.mem_append.1 hc with hc | hc
    · exact ih (n / base) (Nat.div_lt_self (by omega) hbase) hc
    · exact ⟨n % base, Nat.mod_lt n (by omega), List.mem_singleton.1 hc⟩

/-- Different numbers have different digits. -/
theorem toDigits_inj (hbase : 1 < base) (hle : base ≤ 16) (h : Nat.toDigits base n = Nat.toDigits base k) : n = k := by
  induction n using Nat.strongRecOn generalizing k with
  | ind n ih =>
  rw [Nat.toDigits_eq_if (n := n) hbase, Nat.toDigits_eq_if (n := k) hbase] at h
  have hmod : ∀ i, i % base < 16 := fun i => Nat.lt_of_lt_of_le (Nat.mod_lt i (by omega)) hle
  split at h <;> split at h
  · exact digitChar_inj (by omega) (by omega) (List.singleton_inj.1 h)
  · exact absurd (List.append_eq_singleton_iff.1 h.symm) (by simp [Nat.toDigits_ne_nil])
  · exact absurd (List.append_eq_singleton_iff.1 h) (by simp [Nat.toDigits_ne_nil])
  · obtain ⟨hdiv, hlast⟩ := List.append_inj' h rfl
    have hquotient := ih (n / base) (Nat.div_lt_self (by omega) hbase) hdiv
    have hremainder := digitChar_inj (hmod n) (hmod k) (List.singleton_inj.1 hlast)
    rw [← Nat.div_add_mod n base, ← Nat.div_add_mod k base, hquotient, hremainder]

/-- All digits, and nothing of what comes after them. -/
theorem takeWhile_toDigits (hxs : AfterDigits xs) :
    (Nat.toDigits 10 n ++ xs).takeWhile Char.isDigit = Nat.toDigits 10 n := by
  have hdigits : ∀ c ∈ Nat.toDigits 10 n, c.isDigit = true := fun c hc =>
    Nat.isDigit_of_mem_toDigits (by decide) (by decide) hc
  have hrest : xs.takeWhile Char.isDigit = [] := by
    cases xs with
    | nil => rfl
    | cons c xs => exact List.takeWhile_cons_of_neg (by simp [hxs c rfl])
  rw [List.takeWhile_append_of_pos hdigits, hrest, List.append_nil]

theorem readable_toDigits : Readable AfterDigits (Nat.toDigits 10) := by
  intro n k xs ys hxs hys h
  have hdigits := congrArg (List.takeWhile Char.isDigit) h
  rw [takeWhile_toDigits hxs, takeWhile_toDigits hys] at hdigits
  rw [hdigits] at h
  exact ⟨toDigits_inj (by decide) (by decide) hdigits, List.append_cancel_left h⟩

/-! ## Quoted text -/

/-- The characters that have an escape of two characters, and what stands there after the backslash. -/
def shortEscapes : List (Char × Char) :=
  [('\x00', '0'), ('\t', 't'), ('\r', 'r'), ('\n', 'n'), ('"', '"'), ('\\', '\\')]

/-- The three ways in which a character is written. -/
theorem escapeChar_cases (c : Char) :
    (∃ short, (c, short) ∈ shortEscapes ∧ escapeChar c = ['\\', short]) ∨
      escapeChar c = '\\' :: 'u' :: '\x7b' :: (hexDigits c.toNat ++ ['\x7d']) ∨
      (c ≠ '\\' ∧ c ≠ '"' ∧ escapeChar c = [c]) := by
  unfold escapeChar
  split_ifs with h₁ h₂ h₃ h₄ h₅ h₆ h₇
  · exact .inl ⟨'0', by simp [shortEscapes, h₁], rfl⟩
  · exact .inl ⟨'t', by simp [shortEscapes, h₂], rfl⟩
  · exact .inl ⟨'r', by simp [shortEscapes, h₃], rfl⟩
  · exact .inl ⟨'n', by simp [shortEscapes, h₄], rfl⟩
  · exact .inl ⟨'"', by simp [shortEscapes, h₅], rfl⟩
  · exact .inl ⟨'\\', by simp [shortEscapes, h₆], rfl⟩
  · exact .inr (.inl rfl)
  · exact .inr (.inr ⟨h₆, h₅, rfl⟩)

/-- No character is written as something that begins with a quote. -/
theorem escapeChar_append_ne (c : Char) (xs ys : List Char) : escapeChar c ++ xs ≠ '"' :: ys := by
  intro h
  rcases escapeChar_cases c with ⟨short, -, hc⟩ | hc | ⟨-, hquote, hc⟩ <;> rw [hc] at h
  · cases (List.cons.inj h).1
  · cases (List.cons.inj h).1
  · exact hquote (List.cons.inj h).1

theorem brace_not_mem_hexDigits : '\x7d' ∉ hexDigits n := by
  intro hmem
  obtain ⟨d, hd, he⟩ := exists_of_mem_toDigits (by decide) hmem
  have hall : ∀ d < 16, '\x7d' ≠ d.digitChar := by decide
  exact hall d hd he

/-- Escapes need nothing to come after them. -/
theorem readable_escapeChar : Readable (fun _ => True) escapeChar := by
  intro c d xs ys _ _ h
  have hshort : ∀ p ∈ shortEscapes, ∀ q ∈ shortEscapes, p.2 = q.2 → p.1 = q.1 := by decide
  have hlong : ∀ p ∈ shortEscapes, p.2 ≠ 'u' := by decide
  rcases escapeChar_cases c with ⟨short, hmem, hc⟩ | hc | ⟨hbackslash, -, hc⟩ <;>
    rcases escapeChar_cases d with ⟨short', hmem', hd⟩ | hd | ⟨hbackslash', -, hd⟩ <;>
    simp only [hc, hd, List.cons_append, List.nil_append, List.append_assoc, List.cons.injEq, true_and] at h
  case inl.inl => exact ⟨hshort _ hmem _ hmem' h.1, h.2⟩
  case inl.inr.inl => exact absurd h.1 (hlong _ hmem)
  case inl.inr.inr => exact absurd h.1.symm hbackslash'
  case inr.inl.inl => exact absurd h.1.symm (hlong _ hmem')
  case inr.inl.inr.inl =>
    obtain ⟨hdigits, hrest⟩ := append_cons_inj_of_not_mem brace_not_mem_hexDigits brace_not_mem_hexDigits h
    exact ⟨Char.toNat_inj.1 (toDigits_inj (by decide) (by decide) hdigits), hrest⟩
  case inr.inl.inr.inr => exact absurd h.1.symm hbackslash'
  case inr.inr.inl => exact absurd h.1 hbackslash
  case inr.inr.inr.inl => exact absurd h.1 hbackslash
  case inr.inr.inr.inr => exact h

/-- Escaped text ends at the first quote that no backslash leads in. -/
theorem escape_append_quote_inj {cs ds : List Char} (h : escape cs ++ '"' :: xs = escape ds ++ '"' :: ys) :
    cs = ds ∧ xs = ys := by
  induction cs generalizing ds with
  | nil =>
    cases ds with
    | nil => exact ⟨rfl, (List.cons.inj h).2⟩
    | cons d ds =>
      rw [escape, escape, List.flatMap_cons, List.append_assoc] at h
      exact absurd h.symm (escapeChar_append_ne d _ _)
  | cons c cs ih =>
    cases ds with
    | nil =>
      rw [escape, escape, List.flatMap_cons, List.append_assoc] at h
      exact absurd h (escapeChar_append_ne c _ _)
    | cons d ds =>
      rw [escape, escape, List.flatMap_cons, List.flatMap_cons, List.append_assoc, List.append_assoc] at h
      obtain ⟨rfl, hrest⟩ := readable_escapeChar trivial trivial h
      obtain ⟨rfl, hxs⟩ := ih hrest
      exact ⟨rfl, hxs⟩

/-- Quoted text needs nothing to come after it. -/
theorem readable_quoted : Readable (fun _ => True) fun text => (quoted text).toList := by
  intro s t xs ys _ _ h
  simp only [quoted, String.toList_ofList, List.cons_append, List.append_assoc, List.nil_append] at h
  obtain ⟨hchars, hrest⟩ := escape_append_quote_inj (List.cons.inj h).2
  exact ⟨String.toList_inj.1 hchars, hrest⟩

end SyntaxTree.Text
