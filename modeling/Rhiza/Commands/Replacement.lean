import Rhiza.Commands.SQLText

/-! # Replaced bytes and the lexical checks

A byte that begins no character lies outside ASCII, and so does every byte that replaces it.
The scanners give bytes outside ASCII no meaning of their own, so each of them commutes with
the replacement.
-/

namespace Rhiza.Commands

open Foundations Utf8

/-! ## Runs outside ASCII -/

/-- A scanner that passes every byte outside ASCII passes a run of them. -/
theorem skip_high {α : Type} {f : ByteString → α} (hf : ∀ b s, 128 ≤ b → f (b :: s) = f s)
    {run : ByteString} (hrun : ∀ b ∈ run, 128 ≤ b) (s : ByteString) : f (run ++ s) = f s := by
  induction run with
  | nil => rfl
  | cons b run ih =>
    rw [List.cons_append, hf b _ (hrun b List.mem_cons_self),
      ih fun c hc => hrun c (List.mem_cons_of_mem b hc)]

/-- Such a scanner commutes with the replacement once it does so at ASCII bytes. -/
theorem sanitize_of_skip {α : Type} {f : ByteString → α} {g : α → α}
    (hf : ∀ b s, 128 ≤ b → f (b :: s) = f s) (hnil : f [] = g (f []))
    (hlow : ∀ b s, b < 128 → (∀ t : ByteString, t.length ≤ s.length → f (sanitize t) = g (f t)) →
      f (b :: sanitize s) = g (f (b :: s)))
    (s : ByteString) : f (sanitize s) = g (f s) := by
  refine sanitizeInduction (motive := fun s t => f t = g (f s)) hnil hlow ?_ s
  intro front front' s hrun hrun' ih
  rw [skip_high hf hrun'.2, skip_high hf hrun.2, ih s (Nat.le_refl _)]

/-- A scanner that stops at every byte outside ASCII does not see the replacement. -/
theorem sanitize_of_stop {α : Type} {f : ByteString → α} {stop : α}
    (hf : ∀ b s, 128 ≤ b → f (b :: s) = stop)
    (hlow : ∀ b s, b < 128 → f (sanitize s) = f s → f (b :: sanitize s) = f (b :: s))
    (s : ByteString) : f (sanitize s) = f s := by
  have hhigh : ∀ run t, HighRun run → f (run ++ t) = stop := by
    rintro run t ⟨hne, hrun⟩
    obtain ⟨b, run, rfl⟩ := List.exists_cons_of_ne_nil hne
    exact hf b _ (hrun b List.mem_cons_self)
  refine sanitizeInduction (motive := fun s t => f t = f s) rfl ?_ ?_ s
  · exact fun b s hb ih => hlow b s hb (ih s (Nat.le_refl _))
  · intro front front' s hrun hrun' _
    rw [hhigh _ _ hrun, hhigh _ _ hrun']

variable {b : UInt8}

theorem ne_of_high {c : UInt8} (hb : 128 ≤ b) (hc : c < 128) : b ≠ c := by
  rintro rfl
  exact absurd hc (UInt8.not_lt.mpr hb)

variable {p : UInt8 → Bool} {quote : UInt8}

/-- The first byte of a string outside ASCII stays outside ASCII. -/
theorem startsWith_sanitize (hp : ∀ b, 128 ≤ b → p b = false)
    (s : ByteString) : startsWith p (sanitize s) = startsWith p s :=
  sanitize_of_stop (fun b _ hb => hp b hb) (fun _ _ _ _ => rfl) s

theorem dropWhile_sanitize (hp : ∀ b, 128 ≤ b → p b = true)
    (s : ByteString) : (sanitize s).dropWhile p = sanitize (s.dropWhile p) := by
  refine sanitize_of_skip (g := sanitize) ?_ rfl ?_ s
  · intro b s hb
    exact List.dropWhile_cons_of_pos (hp b hb)
  · intro b s hb ih
    by_cases hpb : p b = true
    · rw [List.dropWhile_cons_of_pos hpb, List.dropWhile_cons_of_pos hpb, ih s (Nat.le_refl _)]
    · rw [List.dropWhile_cons_of_neg hpb, List.dropWhile_cons_of_neg hpb, sanitize_ascii hb]

theorem skipLine_sanitize (s : ByteString) : skipLine (sanitize s) = sanitize (skipLine s) := by
  refine dropWhile_sanitize ?_ s
  intro b hb
  simpa using ne_of_high hb (by decide)

theorem skipPast_sanitize {close : UInt8} (hclose : close < 128) (s : ByteString) :
    skipPast close (sanitize s) = sanitize (skipPast close s) := by
  refine sanitize_of_skip (g := sanitize) ?_ rfl ?_ s
  · intro b s hb
    simp only [skipPast]
    rw [List.dropWhile_cons_of_pos (by simpa using ne_of_high hb hclose)]
  · intro b s hb ih
    by_cases hbc : b = close
    · simp [skipPast, hbc]
    · have ih := ih s (Nat.le_refl _)
      simp only [skipPast] at ih ⊢
      rw [List.dropWhile_cons_of_pos (by simpa using hbc),
        List.dropWhile_cons_of_pos (by simpa using hbc), ih]

theorem skipQuoted_cons (hb : b ≠ quote) (s : ByteString) :
    skipQuoted quote (b :: s) = skipQuoted quote s := by
  cases s with
  | nil => rfl
  | cons => rw [skipQuoted, if_neg hb]

theorem skipQuoted_quote (quote : UInt8) (s : ByteString) :
    skipQuoted quote (quote :: s) =
      if startsWith (· = quote) s then skipQuoted quote (s.drop 1) else s := by
  cases s with
  | nil => rfl
  | cons =>
    rw [skipQuoted, if_pos rfl]
    simp only [startsWith, List.head?_cons, Option.any_some, decide_eq_true_eq, List.drop_one,
      List.tail_cons]

variable {s : ByteString}

/-- Behind an ASCII byte at the head, the rest is the replaced rest. -/
theorem drop_one_sanitize (hp : ∀ b, 128 ≤ b → p b = false)
    (h : startsWith p s = true) : (sanitize s).drop 1 = sanitize (s.drop 1) := by
  cases s with
  | nil => rfl
  | cons b s =>
    have hb : b < 128 := by
      by_contra hhigh
      have hpb : p b = true := h
      rw [hp b (UInt8.not_lt.mp hhigh)] at hpb
      exact absurd hpb nofun
    rw [sanitize_ascii hb]
    rfl

theorem eq_byte_of_high {c : UInt8} (hc : c < 128) :
    ∀ b : UInt8, 128 ≤ b → decide (b = c) = false := by
  intro b hb
  simpa using ne_of_high hb hc

theorem skipQuoted_sanitize (hquote : quote < 128) (s : ByteString) :
    skipQuoted quote (sanitize s) = sanitize (skipQuoted quote s) := by
  refine sanitize_of_skip (g := sanitize) ?_ rfl ?_ s
  · exact fun b s hb => skipQuoted_cons (ne_of_high hb hquote) s
  · intro b s hb ih
    by_cases hbq : b = quote
    · subst hbq
      rw [skipQuoted_quote, skipQuoted_quote, startsWith_sanitize (eq_byte_of_high hb)]
      split
      · next hdouble =>
        rw [drop_one_sanitize (eq_byte_of_high hb) hdouble]
        exact ih (s.drop 1) (by simp)
      · rfl
    · rw [skipQuoted_cons hbq, skipQuoted_cons hbq, ih s (Nat.le_refl _)]

/-! ## Block comments -/

theorem afterBlock?_cons (hb : b ≠ 42) (s : ByteString) : afterBlock? (b :: s) = afterBlock? s := by
  cases s with
  | nil => rfl
  | cons => rw [afterBlock?, if_neg fun h => hb h.1]

theorem afterBlock?_star (s : ByteString) :
    afterBlock? (42 :: s) =
      if startsWith (· = 47) s then some (s.drop 1) else afterBlock? s := by
  cases s with
  | nil => rfl
  | cons =>
    rw [afterBlock?]
    simp [startsWith]

theorem afterBlock?_sanitize (s : ByteString) :
    afterBlock? (sanitize s) = (afterBlock? s).map sanitize := by
  refine sanitize_of_skip (g := Option.map sanitize) ?_ rfl ?_ s
  · intro b s hb
    exact afterBlock?_cons (ne_of_high hb (by decide)) s
  · intro b s hb ih
    by_cases hstar : b = 42
    · subst hstar
      rw [afterBlock?_star, afterBlock?_star, startsWith_sanitize (eq_byte_of_high (by decide))]
      split
      · next hslash =>
        rw [drop_one_sanitize (eq_byte_of_high (by decide)) hslash]
        rfl
      · exact ih s (Nat.le_refl _)
    · rw [afterBlock?_cons hstar, afterBlock?_cons hstar, ih s (Nat.le_refl _)]

theorem afterLine?_sanitize (s : ByteString) :
    afterLine? (sanitize s) = (afterLine? s).map sanitize := by
  refine sanitize_of_skip (g := Option.map sanitize) ?_ rfl ?_ s
  · intro b s hb
    rw [afterLine?, if_neg (ne_of_high hb (by decide))]
  · intro b s hb ih
    rw [afterLine?, afterLine?]
    split
    · rfl
    · exact ih s (Nat.le_refl _)

/-- A block comment that does not end leaves its last byte. -/
theorem skipBlock_eq (s : ByteString) : skipBlock s = (afterBlock? s).getD s.getLast?.toList := by
  induction s using skipBlock.induct with
  | case1 | case2 => rfl
  | case3 b c rest h => rw [skipBlock, afterBlock?, if_pos h, if_pos h]; rfl
  | case4 b c rest h ih =>
    rw [skipBlock, afterBlock?, if_neg h, if_neg h, ih, List.getLast?_cons_cons]

/-- The last byte stays, or lies outside ASCII before and after the replacement. -/
theorem getLast?_sanitize (s : ByteString) :
    (sanitize s).getLast? = s.getLast? ∨
      ∃ b c, s.getLast? = some b ∧ (sanitize s).getLast? = some c ∧ 128 ≤ b ∧ 128 ≤ c := by
  refine sanitizeInduction (motive := fun s t => t.getLast? = s.getLast? ∨
    ∃ b c, s.getLast? = some b ∧ t.getLast? = some c ∧ 128 ≤ b ∧ 128 ≤ c) (.inl rfl) ?_ ?_ s
  · intro b s _ ih
    rw [List.getLast?_cons, List.getLast?_cons]
    rcases ih s (Nat.le_refl _) with ih | ⟨x, y, hx, hy, hhigh⟩
    · exact .inl (by rw [ih])
    · exact .inr ⟨x, y, by simp [hx], by simp [hy], hhigh⟩
  · rintro front front' s ⟨hne, hrun⟩ ⟨hne', hrun'⟩ ih
    rw [List.getLast?_append, List.getLast?_append]
    rcases ih s (Nat.le_refl _) with ih | ⟨x, y, hx, hy, hhigh⟩
    · cases hlast : s.getLast? with
      | some => exact .inl (by rw [ih, hlast]; rfl)
      | none =>
        refine .inr ⟨front.getLast hne, front'.getLast hne', ?_, ?_, hrun _ (List.getLast_mem hne),
          hrun' _ (List.getLast_mem hne')⟩
        · simp [List.getLast?_eq_some_getLast hne]
        · simp [ih, hlast, List.getLast?_eq_some_getLast hne']
    · exact .inr ⟨x, y, by simp [hx], by simp [hy], hhigh⟩

/-! ## Positional parameters -/

theorem isDigit_of_high (hb : 128 ≤ b) : Decimal.isDigit b = false := by
  simp only [Decimal.isDigit, decide_eq_false_iff_not, UInt8.le_iff_toNat_le] at hb ⊢
  have h128 : (128 : UInt8).toNat = 128 := rfl
  have h57 : (57 : UInt8).toNat = 57 := rfl
  omega

theorem isLetter_of_high (hb : 128 ≤ b) : isLetter b = false := by
  simp only [isLetter, decide_eq_false_iff_not, UInt8.le_iff_toNat_le] at hb ⊢
  have h128 : (128 : UInt8).toNat = 128 := rfl
  have h90 : (90 : UInt8).toNat = 90 := rfl
  have h122 : (122 : UInt8).toNat = 122 := rfl
  omega

theorem countPlainParameters_cons_high (hb : 128 ≤ b) (s : ByteString) :
    countPlainParameters (b :: s) = countPlainParameters s := by
  have hne : ∀ c : UInt8, c < 128 → b ≠ c := fun c hc => ne_of_high hb hc
  rw [countPlainParameters]
  simp [hne 39 (by decide), hne 34 (by decide), hne 96 (by decide), hne 91 (by decide),
    hne 45 (by decide), hne 47 (by decide), hne 63 (by decide), hne 58 (by decide),
    hne 64 (by decide), hne 36 (by decide)]

theorem countPlainParameters_skipBlock (h : ∀ t : ByteString, t.length ≤ s.length →
      countPlainParameters (sanitize t) = countPlainParameters t) :
    countPlainParameters (skipBlock (sanitize s)) = countPlainParameters (skipBlock s) := by
  rw [skipBlock_eq, skipBlock_eq, afterBlock?_sanitize]
  cases hafter : afterBlock? s with
  | some rest => exact h rest (Nat.le_of_lt (length_afterBlock?_lt hafter))
  | none =>
    rcases getLast?_sanitize s with hlast | ⟨b, c, hb, hc, hbhigh, hchigh⟩
    · rw [hlast]
      rfl
    · rw [hb, hc]
      exact (countPlainParameters_cons_high hchigh []).trans
        (countPlainParameters_cons_high hbhigh []).symm

theorem countPlainParameters_sanitize (s : ByteString) :
    countPlainParameters (sanitize s) = countPlainParameters s := by
  refine sanitize_of_skip (g := id) ?_ rfl ?_ s
  · exact fun b s hb => countPlainParameters_cons_high hb s
  · intro b s hb ih
    simp only [id_eq] at ih ⊢
    rw [countPlainParameters, countPlainParameters,
      startsWith_sanitize (eq_byte_of_high (by decide)),
      startsWith_sanitize (eq_byte_of_high (by decide)),
      startsWith_sanitize fun b hb => isDigit_of_high hb,
      startsWith_sanitize fun b hb => by simp [isLetter_of_high hb, ne_of_high hb]]
    -- One branch of the scanner after the other; both sides take the same one.
    refine ite_congr rfl (fun hquote => ?_) fun _ => ite_congr rfl (fun _ => ?_) fun _ =>
      ite_congr rfl (fun hline => ?_) fun _ => ite_congr rfl (fun hblock => ?_) fun _ =>
      ite_congr rfl (fun _ => ite_congr rfl (fun _ => rfl) fun _ => ?_) fun _ =>
      ite_congr rfl (fun _ => rfl) fun _ => ih s (Nat.le_refl _)
    · rw [skipQuoted_sanitize hb, ih _ (length_skipQuoted_le _ _)]
    · rw [skipPast_sanitize (by decide), ih _ (length_skipPast_le _ _)]
    · rw [drop_one_sanitize (eq_byte_of_high (by decide)) hline.2, skipLine_sanitize,
        ih _ (Nat.le_trans (length_skipLine_le _) (by simp))]
    · rw [drop_one_sanitize (eq_byte_of_high (by decide)) hblock.2]
      exact countPlainParameters_skipBlock fun t ht => ih t (Nat.le_trans ht (by simp))
    · rw [ih s (Nat.le_refl _)]

/-! ## Trimming and the leading keyword -/

theorem isSpaceChar_replacement : isSpaceChar replacement = false := by decide

theorem trimLeft_sanitize (s : ByteString) : trimLeft (sanitize s) = sanitize (trimLeft s) := by
  induction s using unitsInduction with
  | nil => simp
  | char c s ih =>
    rw [sanitize_encode_append, trimLeft_char, trimLeft_char]
    split
    · exact ih
    · rw [sanitize_encode_append]
  | invalid b s hb _ =>
    rw [sanitize_invalid hb, trimLeft_char, isSpaceChar_replacement, trimLeft_invalid hb,
      sanitize_invalid hb]
    rfl

theorem trimRight_isPrefix (s : ByteString) : trimRight s <+: s := by
  induction s using unitsInduction with
  | nil => simp
  | char c s ih =>
    rw [trimRight_char]
    split
    · exact List.nil_prefix
    · exact (List.prefix_append_right_inj _).mpr ih
  | invalid b s hb ih =>
    rw [trimRight_invalid hb]
    exact (List.prefix_cons_inj b).mpr ih

theorem sanitize_eq_nil : sanitize s = [] ↔ s = [] := by
  constructor
  · exact eq_of_sanitize_ascii fun _ hb => absurd hb List.not_mem_nil
  · rintro rfl
    rfl

theorem trimRight_sanitize (s : ByteString) : trimRight (sanitize s) = sanitize (trimRight s) := by
  induction s using unitsInduction with
  | nil => simp
  | char c s ih =>
    rw [sanitize_encode_append, trimRight_char, trimRight_char, ih]
    simp only [sanitize_eq_nil]
    split
    · rfl
    · rw [sanitize_encode_append]
  | invalid b s hb ih =>
    rw [sanitize_invalid hb, trimRight_char, isSpaceChar_replacement, trimRight_invalid hb, ih,
      sanitize_invalid (decodeChar?_eq_none_of_isPrefix hb (trimRight_isPrefix s))]
    simp

theorem trimSpace_sanitize (s : ByteString) : trimSpace (sanitize s) = sanitize (trimSpace s) := by
  rw [trimSpace, trimLeft_sanitize, trimRight_sanitize, trimSpace]

/-- An ASCII byte at the head of a replaced string was there before. -/
theorem eq_cons_of_sanitize {s t : ByteString} (hb : b < 128)
    (h : sanitize s = b :: t) : ∃ rest, s = b :: rest ∧ t = sanitize rest := by
  have hstart : startsWith (· = b) (sanitize s) = true := by simp [h, startsWith]
  have hdrop := drop_one_sanitize (eq_byte_of_high hb)
    (by rwa [startsWith_sanitize (eq_byte_of_high hb)] at hstart)
  rw [startsWith_sanitize (eq_byte_of_high hb)] at hstart
  cases s with
  | nil => exact absurd hstart nofun
  | cons c rest =>
    obtain rfl : c = b := by simpa [startsWith] using hstart
    rw [h] at hdrop
    exact ⟨rest, rfl, hdrop⟩

theorem skipComments_eq (query : ByteString) :
    skipComments query =
      match trimSpace query with
      | 45 :: 45 :: rest => (afterLine? rest).bind skipComments
      | 47 :: 42 :: rest => (afterBlock? rest).bind skipComments
      | trimmed => some trimmed := by
  rw [skipComments]
  split
  · next rest hrest =>
    simp only [hrest]
    split
    · next tail htail => rw [htail]; rfl
    · next htail => rw [htail]; rfl
  · next rest hrest =>
    simp only [hrest]
    split
    · next tail htail => rw [htail]; rfl
    · next htail => rw [htail]; rfl
  · next hline hblock =>
    split
    · next rest hrest => exact absurd hrest (hline rest)
    · next rest hrest => exact absurd hrest (hblock rest)
    · rfl

theorem skipComments_sanitize (s : ByteString) :
    skipComments (sanitize s) = (skipComments s).map sanitize := by
  induction hlen : s.length using Nat.strongRecOn generalizing s with
  | _ n ih =>
    have htrim := length_trimSpace_le s
    rw [skipComments_eq, skipComments_eq s, trimSpace_sanitize]
    split
    · next rest hrest =>
      -- A line comment: both texts continue behind the same line break.
      obtain ⟨tail, htail, hrest⟩ := eq_cons_of_sanitize (by decide) hrest
      obtain ⟨text, rfl, rfl⟩ := eq_cons_of_sanitize (by decide) hrest.symm
      simp only [htail, afterLine?_sanitize]
      cases hafter : afterLine? text with
      | none => rfl
      | some next =>
        have hshort := length_afterLine?_lt hafter
        rw [htail, hlen] at htrim
        simp only [List.length_cons] at htrim
        exact ih next.length (by omega) next rfl
    · next rest hrest =>
      obtain ⟨tail, htail, hrest⟩ := eq_cons_of_sanitize (by decide) hrest
      obtain ⟨text, rfl, rfl⟩ := eq_cons_of_sanitize (by decide) hrest.symm
      simp only [htail, afterBlock?_sanitize]
      cases hafter : afterBlock? text with
      | none => rfl
      | some next =>
        have hshort := length_afterBlock?_lt hafter
        rw [htail, hlen] at htrim
        simp only [List.length_cons] at htrim
        exact ih next.length (by omega) next rfl
    · next hline hblock =>
      split
      · next rest hrest => exact absurd (by rw [hrest]; simp) (hline (sanitize rest))
      · next rest hrest => exact absurd (by rw [hrest]; simp) (hblock (sanitize rest))
      · rfl

theorem takeWhile_sanitize (hp : ∀ b, 128 ≤ b → p b = false)
    (s : ByteString) : (sanitize s).takeWhile p = s.takeWhile p := by
  have hstop : ∀ b s, 128 ≤ b → (b :: s).takeWhile p = [] :=
    fun b s hb => List.takeWhile_cons_of_neg (by simp [hp b hb])
  refine sanitize_of_stop hstop (fun b s _ ih => ?_) s
  rw [List.takeWhile_cons, List.takeWhile_cons, ih]

theorem firstSQLKeyword_sanitize (s : ByteString) :
    firstSQLKeyword (sanitize s) = firstSQLKeyword s := by
  rw [firstSQLKeyword, firstSQLKeyword, skipComments_sanitize]
  cases skipComments s with
  | none => rfl
  | some text =>
    have hletters := takeWhile_sanitize (p := fun b => isLetter b ∨ b = 95)
      (fun b hb => by simp [isLetter_of_high hb, ne_of_high hb]) text
    simp only [Option.map_some, hletters]

/-! ## The reserved namespace -/

theorem toLower_sanitize (lib : Library) (s : ByteString) :
    toLower lib (sanitize s) = toLower lib s := by
  rw [toLower, sanitize_eq_flatMap, units_flatMap_encode, List.map_map, List.flatMap_map]
  rfl

theorem validatePublicSQL_sanitize (lib : Library) (s : ByteString) :
    validatePublicSQL lib (sanitize s) = validatePublicSQL lib s := by
  rw [validatePublicSQL, validatePublicSQL, toLower_sanitize]

theorem zero_mem_sanitize : (0 : UInt8) ∈ sanitize s ↔ 0 ∈ s := by
  refine iff_of_eq (sanitize_of_skip (f := fun s => (0 : UInt8) ∈ s) (g := id) ?_ rfl ?_ s)
  · intro b s hb
    simp [(ne_of_high hb (show (0 : UInt8) < 128 by decide)).symm]
  · intro b s _ ih
    simp [ih s (Nat.le_refl _)]

end Rhiza.Commands
