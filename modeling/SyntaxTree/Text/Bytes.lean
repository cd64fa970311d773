/-!
# Byte offsets into a text

Every offset of the library counts bytes of the UTF-8 form of a text. A text is cut at an offset only
where a character starts or the text ends, so one function, `cut?`, carries all the rest: an offset
is a boundary when the cut exists, a slice is two cuts, and the line of an offset counts the line
feeds before the cut.

The main fact is `cut?_eq_some_iff`: the cut at `n` is the one split of the text whose first part
takes `n` bytes. Slices are then parts of the text (`slice?_eq_some_iff`): there is one between any two
boundaries in order, and two that meet make one.
-/

namespace SyntaxTree.Text

/-- Number of bytes that the characters take in UTF-8. -/
def byteLength : List Char → Nat
  | [] => 0
  | c :: cs => c.utf8Size + byteLength cs

/-- The text before and after byte offset `n`, or `none` if `n` lies inside a character or past the
end. -/
def cut? : List Char → Nat → Option (List Char × List Char)
  | cs, 0 => some ([], cs)
  | [], _ + 1 => none
  | c :: cs, n + 1 =>
    if c.utf8Size ≤ n + 1 then
      (cut? cs (n + 1 - c.utf8Size)).map fun (before, after) => (c :: before, after)
    else
      none

/-- Whether byte offset `n` is a character boundary of the text, its two ends included. -/
def isBoundary (cs : List Char) (n : Nat) : Bool :=
  (cut? cs n).isSome

/-- The characters between two byte offsets, or `none` if the offsets are out of order or one of them
is no boundary. -/
def slice? (cs : List Char) (start stop : Nat) : Option (List Char) := do
  let (before, _) ← cut? cs stop
  let (_, between) ← cut? before start
  return between

/-- The line of byte offset `n`, counted from 0, or `none` if `n` is no boundary. A line ends with a
line feed, and the line feed still belongs to it. -/
def lineIndex? (cs : List Char) (n : Nat) : Option Nat :=
  (cut? cs n).map fun (before, _) => before.count '\n'

@[simp] theorem byteLength_nil : byteLength [] = 0 := rfl

@[simp] theorem byteLength_cons (c : Char) (cs : List Char) :
    byteLength (c :: cs) = c.utf8Size + byteLength cs := rfl

@[simp] theorem byteLength_append (xs ys : List Char) :
    byteLength (xs ++ ys) = byteLength xs + byteLength ys := by
  induction xs with
  | nil => simp
  | cons c xs ih => simp [ih, Nat.add_assoc]

/-- A text is as long as its split parts together. -/
theorem cut?_eq_some {cs before after : List Char} {n : Nat} (h : cut? cs n = some (before, after)) :
    cs = before ++ after ∧ byteLength before = n := by
  induction cs generalizing n before after with
  | nil => cases n <;> simp_all [cut?]
  | cons c cs ih =>
    cases n with
    | zero =>
      obtain ⟨rfl, rfl⟩ : [] = before ∧ c :: cs = after := by simpa [cut?] using h
      exact ⟨rfl, rfl⟩
    | succ n =>
      rw [cut?] at h
      split at h
      · next fits =>
        obtain ⟨⟨b, a⟩, hcut, heq⟩ := Option.map_eq_some_iff.1 h
        obtain ⟨rfl, rfl⟩ : c :: b = before ∧ a = after := by simpa using heq
        obtain ⟨hcs, hlen⟩ := ih hcut
        refine ⟨by rw [hcs, List.cons_append], ?_⟩
        rw [byteLength_cons, hlen]
        omega
      · simp at h

/-- Every split of a text is found at the length of its first part. -/
theorem cut?_append (before after : List Char) :
    cut? (before ++ after) (byteLength before) = some (before, after) := by
  induction before with
  | nil => cases after <;> simp [cut?]
  | cons c before ih =>
    have hpos : 0 < c.utf8Size := Char.utf8Size_pos c
    obtain ⟨n, hn⟩ : ∃ n, byteLength (c :: before) = n + 1 :=
      ⟨c.utf8Size - 1 + byteLength before, by rw [byteLength_cons]; omega⟩
    rw [hn, List.cons_append, cut?]
    rw [byteLength_cons] at hn
    rw [if_pos (by omega), show n + 1 - c.utf8Size = byteLength before by omega, ih]
    rfl

/-- The cut at `n` is the split whose first part takes `n` bytes. -/
theorem cut?_eq_some_iff {cs before after : List Char} {n : Nat} :
    cut? cs n = some (before, after) ↔ cs = before ++ after ∧ byteLength before = n :=
  ⟨cut?_eq_some, fun ⟨hcs, hn⟩ => hcs ▸ hn ▸ cut?_append before after⟩

@[simp] theorem isBoundary_zero (cs : List Char) : isBoundary cs 0 = true := by
  cases cs <;> rfl

@[simp] theorem isBoundary_byteLength (cs : List Char) : isBoundary cs (byteLength cs) = true := by
  have h := cut?_append cs []
  rw [List.append_nil] at h
  simp [isBoundary, h]

theorem byteLength_eq_zero_iff {cs : List Char} : byteLength cs = 0 ↔ cs = [] := by
  cases cs with
  | nil => simp
  | cons c cs =>
    have hpos := Char.utf8Size_pos c
    simp only [byteLength_cons, reduceCtorEq, iff_false]
    omega

/-- A boundary lies between two parts of the text. -/
theorem isBoundary_iff {cs : List Char} {n : Nat} :
    isBoundary cs n = true ↔ ∃ before after, cs = before ++ after ∧ byteLength before = n := by
  rw [isBoundary, Option.isSome_iff_exists]
  constructor
  · rintro ⟨⟨before, after⟩, h⟩
    exact ⟨before, after, cut?_eq_some_iff.1 h⟩
  · rintro ⟨before, after, h⟩
    exact ⟨(before, after), cut?_eq_some_iff.2 h⟩

theorem le_byteLength_of_isBoundary {cs : List Char} {n : Nat} (h : isBoundary cs n = true) :
    n ≤ byteLength cs := by
  obtain ⟨before, after, rfl, rfl⟩ := isBoundary_iff.1 h
  rw [byteLength_append]
  omega

/-- The slice between two offsets is the part of the text from the one to the other. -/
theorem slice?_eq_some_iff {cs between : List Char} {start stop : Nat} :
    slice? cs start stop = some between ↔ ∃ before after, cs = before ++ (between ++ after) ∧
      byteLength before = start ∧ start + byteLength between = stop := by
  simp only [slice?, Option.bind_eq_bind, Option.bind_eq_some_iff, Option.pure_def, Option.some.injEq]
  constructor
  · rintro ⟨⟨upTo, after⟩, hcutStop, ⟨before, between⟩, hcutStart, rfl⟩
    obtain ⟨rfl, hstop⟩ := cut?_eq_some_iff.1 hcutStop
    obtain ⟨rfl, hstart⟩ := cut?_eq_some_iff.1 hcutStart
    rw [byteLength_append, hstart] at hstop
    exact ⟨before, after, by rw [List.append_assoc], hstart, hstop⟩
  · rintro ⟨before, after, rfl, rfl, rfl⟩
    refine ⟨(before ++ between, after), ?_, (before, between), cut?_append before between, rfl⟩
    rw [← List.append_assoc, ← byteLength_append]
    exact cut?_append (before ++ between) after

/-- There is a slice between any two boundaries in order. -/
theorem exists_slice? {cs : List Char} {start stop : Nat} (hstart : isBoundary cs start = true)
    (hstop : isBoundary cs stop = true) (hle : start ≤ stop) : ∃ between, slice? cs start stop = some between := by
  obtain ⟨before, after, rfl, rfl⟩ := isBoundary_iff.1 hstart
  obtain ⟨upTo, rest, hcs, rfl⟩ := isBoundary_iff.1 hstop
  rcases List.append_eq_append_iff.1 hcs with ⟨between, rfl, rfl⟩ | ⟨between, rfl, rfl⟩
  · refine ⟨between, slice?_eq_some_iff.2 ⟨before, rest, rfl, rfl, ?_⟩⟩
    rw [byteLength_append]
  · -- the second offset is no later, so the two are the same
    rw [byteLength_append] at hle
    refine ⟨[], slice?_eq_some_iff.2 ⟨upTo ++ between, after, by simp, rfl, ?_⟩⟩
    rw [byteLength_append, byteLength_nil]
    omega

theorem slice?_self {cs : List Char} {n : Nat} (h : isBoundary cs n = true) : slice? cs n n = some [] := by
  obtain ⟨before, after, rfl, rfl⟩ := isBoundary_iff.1 h
  exact slice?_eq_some_iff.2 ⟨before, after, rfl, rfl, rfl⟩

theorem slice?_all (cs : List Char) : slice? cs 0 (byteLength cs) = some cs :=
  slice?_eq_some_iff.2 ⟨[], [], by simp, rfl, Nat.zero_add _⟩

/-- Two slices that meet make one. -/
theorem slice?_append {cs xs ys : List Char} {start middle stop : Nat} (hxs : slice? cs start middle = some xs)
    (hys : slice? cs middle stop = some ys) : slice? cs start stop = some (xs ++ ys) := by
  obtain ⟨before, after, rfl, rfl, rfl⟩ := slice?_eq_some_iff.1 hxs
  obtain ⟨before', after', hcs, hmiddle, rfl⟩ := slice?_eq_some_iff.1 hys
  -- there is one cut in the middle
  have hcut := cut?_append (before ++ xs) after
  rw [List.append_assoc, hcs, byteLength_append, ← hmiddle, cut?_append] at hcut
  obtain ⟨rfl, rfl⟩ := Prod.mk.inj (Option.some.inj hcut)
  refine slice?_eq_some_iff.2 ⟨before, after', by simp, rfl, ?_⟩
  rw [byteLength_append, Nat.add_assoc]

end SyntaxTree.Text
