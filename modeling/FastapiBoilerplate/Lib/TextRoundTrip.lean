import Mathlib.Algebra.Group.Nat.Defs
import FastapiBoilerplate.Lib.Text

/-!
# Text that was written is read back

UTF-8 and decimal numbers: what `encode` gives, `decode` takes back, and what `str` writes, `int`
reads. UTF-8 goes character by character (`utf8Decode_point`), numbers digit by digit with the value
read so far as accumulator (`readDigits_append`).

Readers also strip blanks and look for markers, so what a text is made of comes with it: digits are
no blanks and no dots, a marker is found where the parts were joined, nothing decodes to a
surrogate.
-/

namespace Lib

open List Option

/-! ## UTF-8 -/

variable {n least k : ℕ} {c : CodePoint} {text : Text} {bytes bs : Bytes} {b : Byte}

theorem continuation_eq (n : ℕ) : continuation (Fin.ofNat _ (0x80 + n % 64)) = some (n % 64) := by
  have hval : (Fin.ofNat 256 (0x80 + n % 64)).val = 0x80 + n % 64 := Nat.mod_eq_of_lt (by omega)
  rw [continuation, hval, if_pos (by omega), Nat.add_sub_cancel_left]

theorem scalar_eq (c : CodePoint) (hleast : least ≤ c.val)
    (hscalar : ¬ (0xD800 ≤ c.val ∧ c.val < 0xE000)) : scalar least c.val = some c := by
  rw [scalar, dif_pos c.isLt, if_neg (by omega)]

theorem utf8Decode_point {b : Bytes} (h : utf8Point c = some b) :
    utf8Decode (b ++ bs) = (utf8Decode bs).map fun cs => c :: cs := by
  have hc := c.isLt
  have hbyte (n : ℕ) (hn : n < 256) : (Fin.ofNat 256 n).val = n := Nat.mod_eq_of_lt hn
  unfold utf8Point at h
  dsimp only at h
  split at h
  · -- one byte
    cases h
    have hback : (Fin.ofNat 0x110000 c.val) = c := Fin.ext (Nat.mod_eq_of_lt hc)
    rw [singleton_append, utf8Decode.eq_def]
    dsimp only
    rw [hbyte _ (by omega), if_pos ‹_›, hback]
  split at h
  · cases h
    have hcode : (0xC0 + c.val / 64 - 0xC0) * 64 + c.val % 64 = c.val := by omega
    rw [cons_append, singleton_append, utf8Decode, hbyte _ (by omega),
      if_neg (by omega), if_neg (by omega), continuation_eq, bind_some, if_pos (by omega),
      hcode, scalar_eq c (by omega) (by omega), bind_some]
  split at h
  · split at h
    · cases h
    cases h
    have hcode : (0xE0 + c.val / 4096 - 0xE0) * 4096 + c.val / 64 % 64 * 64 + c.val % 64 =
        c.val := by omega
    rw [cons_append, cons_append, singleton_append, utf8Decode,
      hbyte _ (by omega), if_neg (by omega), if_neg (by omega), continuation_eq,
      bind_some, if_neg (by omega)]
    dsimp only
    rw [continuation_eq, bind_some, if_pos (by omega),
      hcode, scalar_eq c (by omega) (by omega), bind_some]
  · cases h
    have hcode : (0xF0 + c.val / 262144 - 0xF0) * 262144 + c.val / 4096 % 64 * 4096 +
        c.val / 64 % 64 * 64 + c.val % 64 = c.val := by omega
    rw [cons_append, cons_append, cons_append, singleton_append,
      utf8Decode, hbyte _ (by omega), if_neg (by omega), if_neg (by omega),
      continuation_eq, bind_some, if_neg (by omega)]
    dsimp only
    rw [continuation_eq, bind_some, if_neg (by omega),
      continuation_eq, bind_some, if_pos (by omega),
      hcode, scalar_eq c (by omega) (by omega), bind_some]

theorem utf8Decode_utf8Encode (h : utf8Encode text = some bytes) :
    utf8Decode bytes = some text := by
  induction text generalizing bytes with
  | nil =>
    cases h
    rfl
  | cons c cs ih =>
    obtain ⟨b, hb, h⟩ := bind_eq_some_iff.mp h
    obtain ⟨bs, hbs, rfl⟩ := map_eq_some_iff.mp h
    rw [utf8Decode_point hb, ih hbs]
    rfl

theorem utf8DecodeReplace_utf8Encode (h : utf8Encode text = some bytes) :
    utf8DecodeReplace bytes = text := by
  rw [utf8DecodeReplace, utf8Decode_utf8Encode h]
  rfl

theorem utf8Encode_append (a b : Text) :
    utf8Encode (a ++ b) = (utf8Encode a).bind fun x => (utf8Encode b).map fun y => x ++ y := by
  induction a with
  | nil => cases h : utf8Encode b <;> simp [utf8Encode, h]
  | cons c cs ih =>
    rw [cons_append, utf8Encode, utf8Encode, ih]
    cases utf8Point c with
    | none => rfl
    | some =>
      cases utf8Encode cs with
      | none => rfl
      | some => cases utf8Encode b <;> simp

/-- A byte below 0x80 is a character of its own. -/
theorem val_of_mem_utf8Point (h : utf8Point c = some bs) (hb : b ∈ bs) (hlow : b.val < 0x80) :
    b.val = c.val := by
  have hc := c.isLt
  simp only [utf8Point] at h
  -- Past the first range every byte is at least 0x80.
  split at h
  · cases h
    cases mem_singleton.mp hb
    simp only [Fin.val_ofNat] at hlow ⊢
    omega
  split at h
  · cases h
    simp only [mem_cons, not_mem_nil, or_false] at hb
    rcases hb with rfl | rfl <;> simp only [Fin.val_ofNat] at hlow <;> omega
  split at h
  · split at h
    · cases h
    cases h
    simp only [mem_cons, not_mem_nil, or_false] at hb
    rcases hb with rfl | rfl | rfl <;> simp only [Fin.val_ofNat] at hlow <;> omega
  · cases h
    simp only [mem_cons, not_mem_nil, or_false] at hb
    rcases hb with rfl | rfl | rfl | rfl <;> simp only [Fin.val_ofNat] at hlow <;> omega

theorem exists_of_mem_utf8Encode (h : utf8Encode text = some bytes) (hb : b ∈ bytes)
    (hlow : b.val < 0x80) : ∃ c ∈ text, b.val = c.val := by
  induction text generalizing bytes with
  | nil =>
    cases h
    cases hb
  | cons c text ih =>
    obtain ⟨bs, hbs, h⟩ := bind_eq_some_iff.mp h
    obtain ⟨rest, hrest, rfl⟩ := map_eq_some_iff.mp h
    rcases mem_append.mp hb with hb | hb
    · exact ⟨c, mem_cons_self, val_of_mem_utf8Point hbs hb hlow⟩
    · obtain ⟨c', hc', hval⟩ := ih hrest hb
      exact ⟨c', mem_cons_of_mem c hc', hval⟩

theorem utf8Encode_ascii (h : ∀ c ∈ text, c.val < 0x80) :
    utf8Encode text = some (asciiBytes text) := by
  induction text with
  | nil => rfl
  | cons c cs ih =>
    have hc : utf8Point c = some [Fin.ofNat _ c.val] := by
      simp [utf8Point, h c mem_cons_self]
    rw [utf8Encode, hc, ih fun c' hc' => h c' (mem_cons_of_mem _ hc')]
    rfl

theorem utf8Decode_ascii (h : ∀ c ∈ text, c.val < 0x80) :
    utf8Decode (asciiBytes text) = some text :=
  utf8Decode_utf8Encode (utf8Encode_ascii h)

/-! ## Surrogates -/

theorem isSome_utf8Point (c : CodePoint) : (utf8Point c).isSome ↔ isSurrogate c = false := by
  simp only [utf8Point, isSurrogate, Bool.and_eq_false_iff, decide_eq_false_iff_not]
  split
  · simp only [isSome_some, true_iff]
    omega
  split
  · simp only [isSome_some, true_iff]
    omega
  split
  · split
    · simp only [isSome_none, Bool.false_eq_true, false_iff]
      omega
    · simp only [isSome_some, true_iff]
      omega
  · simp only [isSome_some, true_iff]
    omega

/-- A text can be encoded unless there is a surrogate in it. -/
theorem isSome_utf8Encode (text : Text) :
    (utf8Encode text).isSome ↔ ∀ c ∈ text, isSurrogate c = false := by
  induction text with
  | nil => simp [utf8Encode]
  | cons c text ih =>
    rw [forall_mem_cons, ← ih, ← isSome_utf8Point, utf8Encode]
    cases utf8Point c <;> simp

theorem scalar_not_surrogate (h : scalar least n = some c) : isSurrogate c = false := by
  unfold scalar at h
  split at h
  · split at h
    · cases h
    rename_i hscalar
    cases h
    simp only [isSurrogate, Bool.and_eq_false_iff, decide_eq_false_iff_not]
    omega
  · cases h

theorem utf8Decode_not_surrogate {raw : Bytes} (h : utf8Decode raw = some text) :
    ∀ c ∈ text, isSurrogate c = false := by
  have hcons {least n : ℕ} {bs : Bytes} {text : Text}
      (ih : ∀ {text : Text}, utf8Decode bs = some text → ∀ c ∈ text, isSurrogate c = false)
      (h : ((scalar least n).bind fun c => (utf8Decode bs).map fun cs => c :: cs) = some text) :
      ∀ c ∈ text, isSurrogate c = false := by
    obtain ⟨c, hc, h⟩ := bind_eq_some_iff.mp h
    obtain ⟨cs, hcs, rfl⟩ := map_eq_some_iff.mp h
    exact forall_mem_cons.mpr ⟨scalar_not_surrogate hc, ih hcs⟩
  induction raw using utf8Decode.induct generalizing text with rw [utf8Decode.eq_def] at h
  | case1 =>
    cases h
    simp
  | case2 b bs hb ih =>
    simp only [hb, if_true] at h
    obtain ⟨cs, hcs, rfl⟩ := map_eq_some_iff.mp h
    refine forall_mem_cons.mpr ⟨?_, ih hcs⟩
    simp only [isSurrogate, Fin.val_ofNat, Bool.and_eq_false_iff, decide_eq_false_iff_not]
    omega
  | case3 b bs hb hlow =>
    simp only [hb, hlow, if_false, if_true] at h
    cases h
  | case4 b hb hlow =>
    simp only [hb, hlow, if_false] at h
    cases h
  | case5 b hb hlow b₁ bs ih ihs =>
    simp only [hb, hlow, if_false] at h
    obtain ⟨n₁, -, h⟩ := bind_eq_some_iff.mp h
    -- two bytes, three or four
    split at h
    · exact hcons ih h
    cases bs with
    | nil => cases h
    | cons b₂ bs =>
      obtain ⟨n₂, -, h⟩ := bind_eq_some_iff.mp h
      split at h
      · exact hcons ihs.1 h
      cases bs with
      | nil => cases h
      | cons =>
        obtain ⟨n₃, -, h⟩ := bind_eq_some_iff.mp h
        split at h
        · exact hcons ihs.2 h
        · cases h

/-! ## Numbers -/

/-- The character of a digit. -/
def digitPoint (d : ℕ) : CodePoint := Fin.ofNat _ (48 + d)

theorem digitPoint_eq : ∀ d < 10, (Fin.ofNat 0x110000 (Nat.digitChar d).toNat) = digitPoint d := by
  decide

theorem decimal_eq (n : ℕ) : decimal n =
    if n < 10 then [digitPoint n] else decimal (n / 10) ++ [digitPoint (n % 10)] := by
  rw [decimal, Nat.toDigits_eq_if (by decide)]
  split
  · rw [map_singleton, digitPoint_eq n ‹_›]
  · rw [map_append, map_singleton, digitPoint_eq _ (Nat.mod_lt _ (by decide)), decimal]

theorem digitPoint_of_mem_decimal (h : c ∈ decimal n) : ∃ d < 10, c = digitPoint d := by
  induction n using Nat.strongRecOn with
  | ind n ih =>
    rw [decimal_eq] at h
    split at h
    · exact ⟨n, ‹_›, mem_singleton.mp h⟩
    rcases mem_append.mp h with h | h
    · exact ih (n / 10) (by omega) h
    · exact ⟨n % 10, Nat.mod_lt _ (by decide), mem_singleton.mp h⟩

/-- What all digits and the sign have, all of `str(n)` has. -/
theorem forall_mem_strInt {p : CodePoint → Prop} (hsign : p 0x2d)
    (hdigit : ∀ d < 10, p (digitPoint d)) {i : ℤ} (h : strInt i = some text) : ∀ c ∈ text, p c := by
  have hdigits : ∀ c ∈ decimal i.natAbs, p c := by
    intro c hc
    obtain ⟨d, hd, rfl⟩ := digitPoint_of_mem_decimal hc
    exact hdigit d hd
  unfold strInt at h
  dsimp only at h
  split at h
  · cases h
  cases h
  split
  · exact forall_mem_append.mpr ⟨forall_mem_singleton.mpr hsign, hdigits⟩
  · exact hdigits

theorem decimal_ascii (n : ℕ) : ∀ c ∈ decimal n, c.val < 0x80 := by
  intro c hc
  obtain ⟨d, hd, rfl⟩ := digitPoint_of_mem_decimal hc
  show (48 + d) % 0x110000 < 0x80
  omega

theorem decimal_ne_nil (n : ℕ) : decimal n ≠ [] := by
  rw [decimal_eq]
  split
  · exact cons_ne_nil _ _
  · exact append_ne_nil_of_right_ne_nil _ (cons_ne_nil _ _)

theorem decimalValue_digitPoint : ∀ d < 10, decimalValue (digitPoint d) = some d := by
  decide

theorem point_notMem_decimal (n : ℕ) : (0x2e : CodePoint) ∉ decimal n := by
  intro hmem
  obtain ⟨d, hd, hdigit⟩ := digitPoint_of_mem_decimal hmem
  have hne : ∀ d < 10, (0x2e : CodePoint) ≠ digitPoint d := by decide
  exact hne d hd hdigit

theorem isBlank_digitPoint : ∀ d < 10, isBlank (digitPoint d) = false := by
  decide

/-- Reading digits goes on from the value it has, digit by digit. -/
theorem readDigits_append (a b : Text) (ha : ∀ c ∈ a, ∃ d < 10, c = digitPoint d) (value count : ℕ)
    (after : Bool) (hafter : a ≠ [] ∨ after = true) :
    readDigits value count after (a ++ b) =
      readDigits (a.foldl (fun v c => v * 10 + (c.val - 48)) value) (count + a.length) true b := by
  induction a generalizing value count after with
  | nil =>
    obtain rfl := hafter.resolve_left fun h => h rfl
    rfl
  | cons c a ih =>
    obtain ⟨d, hd, rfl⟩ := ha c mem_cons_self
    have hval : (digitPoint d).val - 48 = d := by
      show (48 + d) % 0x110000 - 48 = d
      omega
    rw [cons_append, readDigits, decimalValue_digitPoint d hd]
    dsimp only
    rw [ih (fun c hc => ha c (mem_cons_of_mem _ hc)) _ _ _ (.inr rfl), foldl_cons, hval,
      length_cons, Nat.add_assoc, Nat.add_comm 1]

theorem foldl_decimal (n : ℕ) : (decimal n).foldl (fun v c => v * 10 + (c.val - 48)) 0 = n := by
  induction n using Nat.strongRecOn with
  | ind n ih =>
    have hval : ∀ d < 10, (digitPoint d).val - 48 = d := by decide
    rw [decimal_eq]
    split
    · rw [foldl_cons, foldl_nil, hval n ‹_›]
      omega
    · rw [foldl_append, ih (n / 10) (by omega), foldl_cons, foldl_nil,
        hval _ (Nat.mod_lt _ (by decide))]
      omega

theorem decimal_injective : Function.Injective decimal := by
  intro n m h
  rw [← foldl_decimal n, ← foldl_decimal m, h]

theorem partition_append {a b marker : Text} (h : c ∉ a) :
    partition (c :: marker) (a ++ (c :: marker ++ b)) = some (a, b) := by
  induction a with
  | nil => simp [partition]
  | cons d a ih =>
    obtain ⟨hne, hmem⟩ := not_or.mp (mt mem_cons.mpr h)
    rw [cons_append, partition, ih hmem]
    simp [hne]

theorem rpartition_append {a b marker : Text} (h : c ∉ b) :
    rpartition (marker ++ [c]) (a ++ (marker ++ c :: b)) = some (a, b) := by
  have htext : (a ++ (marker ++ c :: b)).reverse =
      b.reverse ++ (c :: marker.reverse ++ a.reverse) := by simp
  rw [rpartition, htext, reverse_append, reverse_singleton, singleton_append,
    partition_append (mt mem_reverse.mp h)]
  simp

theorem mem_of_partition {text marker : Text} {p : Text × Text}
    (h : partition (c :: marker) text = some p) : c ∈ text := by
  induction text generalizing p with
  | nil => cases h
  | cons d text ih =>
    rw [partition] at h
    split at h
    · next hstart =>
      have hstarts := isPrefixOf_iff_prefix.mp hstart
      exact hstarts.subset mem_cons_self
    · obtain ⟨_, hrest, -⟩ := Option.map_eq_some_iff.mp h
      exact mem_cons_of_mem d (ih hrest)

theorem dropWhile_blank (h : ∀ c ∈ text, ∃ d < 10, c = digitPoint d) :
    text.dropWhile isBlank = text := by
  cases text with
  | nil => rfl
  | cons c =>
    obtain ⟨d, hd, rfl⟩ := h c mem_cons_self
    rw [dropWhile_cons_of_neg]
    rw [isBlank_digitPoint d hd]
    exact Bool.false_ne_true

theorem readInt_decimal (h : (decimal n).length ≤ maxStrDigits) :
    readInt (decimal n) = some (n : ℤ) := by
  have hdigits : ∀ c ∈ decimal n, ∃ d < 10, c = digitPoint d :=
    fun c hc => digitPoint_of_mem_decimal hc
  have hbody : (((decimal n).dropWhile isBlank).reverse.dropWhile isBlank).reverse = decimal n := by
    rw [dropWhile_blank hdigits, dropWhile_blank (by simpa using hdigits), reverse_reverse]
  have hread : readDigits 0 0 false (decimal n) = some (n, (decimal n).length) := by
    have := readDigits_append (decimal n) [] hdigits 0 0 false (.inl (decimal_ne_nil n))
    rw [append_nil, foldl_decimal, Nat.zero_add] at this
    exact this
  have hsign : ∀ d < 10, (digitPoint d).val ≠ 0x2d ∧ (digitPoint d).val ≠ 0x2b := by decide
  rw [readInt, hbody]
  cases htext : decimal n with
  | nil => exact absurd htext (decimal_ne_nil n)
  | cons c =>
    obtain ⟨d, hd, rfl⟩ := hdigits c (htext ▸ mem_cons_self)
    obtain ⟨hminus, hplus⟩ := hsign d hd
    simp only [hminus, hplus, if_false]
    rw [← htext, hread]
    simp only [Nat.not_lt.mpr h, if_false, Bool.false_eq_true]

theorem readInt_strInt (h : strInt n = some text) :
    readInt text = some (n : ℤ) ∧ ∀ c ∈ text, c.val < 0x80 := by
  unfold strInt at h
  simp only [Int.natAbs_natCast] at h
  split at h
  · cases h
  rename_i hlength
  rw [if_neg (by omega)] at h
  cases h
  exact ⟨readInt_decimal (Nat.le_of_not_lt hlength), decimal_ascii n⟩

/-! ## How long a number is -/

theorem length_decimal_le (hk : 0 < k) : (decimal n).length ≤ k ↔ n < 10 ^ k := by
  have hpos (m : ℕ) : 0 < (decimal m).length := length_pos_iff.mpr (decimal_ne_nil m)
  induction k generalizing n with
  | zero => cases hk
  | succ k ih =>
    have hpow : 1 ≤ 10 ^ k := Nat.one_le_pow _ _ (by decide)
    rw [decimal_eq, Nat.pow_succ]
    split
    · rw [length_singleton]
      omega
    rw [length_append, length_singleton, Nat.add_le_add_iff_right]
    cases k with
    | zero =>
      have := hpos (n / 10)
      omega
    | succ k => exact (ih (Nat.succ_pos k)).trans (Nat.div_lt_iff_lt_mul (by decide))

theorem isSome_strInt (n : ℕ) : (strInt n).isSome ↔ n < 10 ^ maxStrDigits := by
  rw [← length_decimal_le (by decide)]
  simp only [strInt, Int.natAbs_natCast]
  split
  · next h => simpa only [isSome_none, Bool.false_eq_true, false_iff, Nat.not_le] using h
  · next h => simpa only [isSome_some, true_iff] using Nat.le_of_not_lt h

theorem decimalValue_lt {d : ℕ} (h : decimalValue c = some d) : d < 10 := by
  obtain ⟨z, hz, rfl⟩ := map_eq_some_iff.mp h
  have hrange := find?_some hz
  simp only [Bool.and_eq_true, decide_eq_true_eq] at hrange
  omega

theorem readDigits_lt {value count v : ℕ} {after : Bool} (hvalue : value < 10 ^ count)
    (h : readDigits value count after text = some (v, k)) : v < 10 ^ k := by
  induction text generalizing value count after with
  | nil =>
    rw [readDigits] at h
    split at h <;> cases h
    exact hvalue
  | cons c text ih =>
    rw [readDigits] at h
    split at h
    · next d hd =>
      have hlt := decimalValue_lt hd
      refine ih ?_ h
      rw [Nat.pow_succ]
      omega
    · split at h
      · exact ih hvalue h
      · cases h

theorem readInt_lt {n : ℤ} (h : readInt text = some n) : n.natAbs < 10 ^ maxStrDigits := by
  simp only [readInt] at h
  split at h
  · next value count hdigits =>
    have hlt := readDigits_lt (by decide) hdigits
    split at h
    · cases h
    · next hcount =>
      have hpow : 10 ^ count ≤ 10 ^ maxStrDigits :=
        Nat.pow_le_pow_right (by decide) (Nat.le_of_not_lt hcount)
      have habs : n.natAbs = value := by
        rw [← some.inj h]
        split <;> omega
      rw [habs]
      exact Nat.lt_of_lt_of_le hlt hpow
  · cases h

/-! ## Separators -/

/-- Stripping takes nothing but what it is told to. -/
theorem mem_stripBy {drop : CodePoint → Bool} (h : c ∈ text) (hc : drop c = false) :
    c ∈ stripBy drop text := by
  have hkept {l : Text} (h : c ∈ l) : c ∈ l.dropWhile drop := by
    rw [← takeWhile_append_dropWhile (p := drop) (l := l)] at h
    rcases mem_append.mp h with h | h
    · exact absurd (all_eq_true.mp all_takeWhile c h) (by simp [hc])
    · exact h
  rw [stripBy, mem_reverse]
  apply hkept
  rw [mem_reverse]
  exact hkept h

end Lib
