import ModuleAudit.Text.Utf8

/-! Text written as UTF-8 is read back as it was. The reader takes the bytes of a character one by one, so its
state after each of them is followed: the value read so far is the character's, less the six bits of every byte
that is still to come. -/

namespace ModuleAudit.Utf8
set_option autoImplicit false

/-! ## One byte -/

theorem toNat_byte {n : Nat} (h : n < 256) : (UInt8.ofNat n).toNat = n := by
  rw [UInt8.toNat_ofNat', Nat.mod_eq_of_lt h]

theorem lossyFrom_ascii {b : UInt8} (h : b.toNat < 0x80) (rest : Bytes) :
    lossyFrom none (b :: rest) = Char.ofNat b.toNat :: lossyFrom none rest := by
  have hlead : lead b = .ascii (Char.ofNat b.toNat) := by simp only [lead, if_pos h]
  simp only [lossyFrom, hlead]

theorem lossyFrom_lead {b : UInt8} {p : Pending} (h : lead b = .pending p) (rest : Bytes) :
    lossyFrom none (b :: rest) = lossyFrom (some p) rest := by
  simp only [lossyFrom, h]

theorem lossyFrom_last {value : Nat} {low high b : UInt8} (hlow : low ≤ b) (hhigh : b ≤ high) (rest : Bytes) :
    lossyFrom (some ⟨value, 0, low, high⟩) (b :: rest) =
      Char.ofNat (value * 64 + (b.toNat - 0x80)) :: lossyFrom none rest := by
  rw [lossyFrom, if_pos ⟨hlow, hhigh⟩]
  rfl

theorem lossyFrom_further {value more : Nat} {low high b : UInt8} (hlow : low ≤ b) (hhigh : b ≤ high)
    (rest : Bytes) :
    lossyFrom (some ⟨value, more + 1, low, high⟩) (b :: rest) =
      lossyFrom (some ⟨value * 64 + (b.toNat - 0x80), more, 0x80, 0xBF⟩) rest := by
  rw [lossyFrom, if_pos ⟨hlow, hhigh⟩]
  rfl

theorem continuation_range {n : Nat} (h : n < 64) :
    (UInt8.ofNat (n + 128)).toNat = n + 128 ∧ (0x80 : UInt8) ≤ UInt8.ofNat (n + 128) ∧
      UInt8.ofNat (n + 128) ≤ (0xBF : UInt8) := by
  have hbyte : (UInt8.ofNat (n + 128)).toNat = n + 128 := toNat_byte (by omega)
  refine ⟨hbyte, ?_, ?_⟩
  · rw [UInt8.le_iff_toNat_le, hbyte]
    exact Nat.le_add_left 128 n
  · rw [UInt8.le_iff_toNat_le, hbyte]
    show n + 128 ≤ 191
    omega

/-! ## The first byte of two, three and four -/

theorem lead_two {n : Nat} (hlow : 2 ≤ n) (hhigh : n < 32) :
    lead (UInt8.ofNat (n + 192)) = .pending ⟨n, 0, 0x80, 0xBF⟩ := by
  have hbyte : (UInt8.ofNat (n + 192)).toNat = n + 192 := toNat_byte (by omega)
  simp only [lead, hbyte]
  rw [if_neg (by omega), if_neg (by omega), if_pos (by omega), Nat.add_sub_cancel]

/-- The second byte of three starts at `A0` after the least first byte and ends at `9F` where the
surrogates would be. -/
theorem lead_three {n m : Nat} (hn : n < 16) (hm : m < 64) (hlow : n = 0 → 32 ≤ m) (hhigh : n = 13 → m < 32) :
    ∃ low high, lead (UInt8.ofNat (n + 224)) = .pending ⟨n, 1, low, high⟩ ∧
      low ≤ UInt8.ofNat (m + 128) ∧ UInt8.ofNat (m + 128) ≤ high := by
  have hbyte : (UInt8.ofNat (n + 224)).toNat = n + 224 := toNat_byte (by omega)
  obtain ⟨hsecond, hfrom, hto⟩ := continuation_range hm
  simp only [lead, hbyte]
  rw [if_neg (by omega), if_neg (by omega), if_neg (by omega)]
  by_cases hfirst : n = 0
  · refine ⟨0xA0, 0xBF, by rw [if_pos (by omega), hfirst], ?_, hto⟩
    rw [UInt8.le_iff_toNat_le, hsecond]
    show 160 ≤ m + 128
    have := hlow hfirst
    omega
  · rw [if_neg (by omega)]
    by_cases hlast : n = 13
    · refine ⟨0x80, 0x9F, by rw [if_pos (by omega), hlast], hfrom, ?_⟩
      rw [UInt8.le_iff_toNat_le, hsecond]
      show m + 128 ≤ 159
      have := hhigh hlast
      omega
    · exact ⟨0x80, 0xBF, by rw [if_neg (by omega), if_pos (by omega), Nat.add_sub_cancel], hfrom, hto⟩

/-- The second byte of four starts at `90` after the least first byte and ends at `8F` after the greatest. -/
theorem lead_four {n m : Nat} (hn : n < 5) (hm : m < 64) (hlow : n = 0 → 16 ≤ m) (hhigh : n = 4 → m < 16) :
    ∃ low high, lead (UInt8.ofNat (n + 240)) = .pending ⟨n, 2, low, high⟩ ∧
      low ≤ UInt8.ofNat (m + 128) ∧ UInt8.ofNat (m + 128) ≤ high := by
  have hbyte : (UInt8.ofNat (n + 240)).toNat = n + 240 := toNat_byte (by omega)
  obtain ⟨hsecond, hfrom, hto⟩ := continuation_range hm
  simp only [lead, hbyte]
  rw [if_neg (by omega), if_neg (by omega), if_neg (by omega), if_neg (by omega), if_neg (by omega),
    if_neg (by omega)]
  by_cases hfirst : n = 0
  · refine ⟨0x90, 0xBF, by rw [if_pos (by omega), hfirst], ?_, hto⟩
    rw [UInt8.le_iff_toNat_le, hsecond]
    show 144 ≤ m + 128
    have := hlow hfirst
    omega
  · rw [if_neg (by omega)]
    by_cases hlast : n = 4
    · refine ⟨0x80, 0x8F, by rw [if_neg (by omega), if_pos (by omega), hlast], hfrom, ?_⟩
      rw [UInt8.le_iff_toNat_le, hsecond]
      show m + 128 ≤ 143
      have := hhigh hlast
      omega
    · exact ⟨0x80, 0xBF, by rw [if_pos (by omega), Nat.add_sub_cancel], hfrom, hto⟩

/-! ## Characters -/

theorem lossyFrom_encodeChar (c : Char) (rest : Bytes) :
    lossyFrom none (String.utf8EncodeChar c ++ rest) = c :: lossyFrom none rest := by
  have hvalid : c.val.toNat < 0xD800 ∨ 0xDFFF < c.val.toNat ∧ c.val.toNat < 0x110000 := c.valid
  have hchar : ∀ n, n = c.val.toNat → Char.ofNat n = c := fun n h => h ▸ Char.ofNat_toNat c
  unfold String.utf8EncodeChar
  generalize c.val.toNat = v at hvalid hchar
  dsimp only
  split
  · have hbyte : (UInt8.ofNat v).toNat = v := toNat_byte (by omega)
    rw [List.singleton_append, lossyFrom_ascii (by omega), hbyte, hchar v rfl]
  · split
    · obtain ⟨hsecond, hfrom, hto⟩ := continuation_range (show v % 64 < 64 by omega)
      rw [List.cons_append, List.singleton_append, lossyFrom_lead (lead_two (by omega) (by omega)),
        lossyFrom_last hfrom hto, hsecond, hchar _ (by omega)]
    · split
      · obtain ⟨low, high, hlead, hlow, hhigh⟩ := lead_three (show v / 4096 % 16 < 16 by omega)
          (show v / 64 % 64 < 64 by omega) (by omega) (by omega)
        obtain ⟨hsecond, -, -⟩ := continuation_range (show v / 64 % 64 < 64 by omega)
        obtain ⟨hthird, hfrom, hto⟩ := continuation_range (show v % 64 < 64 by omega)
        simp only [List.cons_append, List.nil_append]
        rw [lossyFrom_lead hlead, lossyFrom_further hlow hhigh, lossyFrom_last hfrom hto, hsecond, hthird,
          hchar _ (by omega)]
      · obtain ⟨low, high, hlead, hlow, hhigh⟩ := lead_four (show v / 262144 % 8 < 5 by omega)
          (show v / 4096 % 64 < 64 by omega) (by omega) (by omega)
        obtain ⟨hsecond, -, -⟩ := continuation_range (show v / 4096 % 64 < 64 by omega)
        obtain ⟨hthird, hfrom, hto⟩ := continuation_range (show v / 64 % 64 < 64 by omega)
        obtain ⟨hfourth, hfrom', hto'⟩ := continuation_range (show v % 64 < 64 by omega)
        simp only [List.cons_append, List.nil_append]
        rw [lossyFrom_lead hlead, lossyFrom_further hlow hhigh, lossyFrom_further hfrom hto,
          lossyFrom_last hfrom' hto', hsecond, hthird, hfourth, hchar _ (by omega)]

theorem lossyFrom_encode (chars : List Char) : lossyFrom none (encode chars) = chars := by
  induction chars with
  | nil => rfl
  | cons c rest ih =>
    rw [encode, List.flatMap_cons, lossyFrom_encodeChar]
    exact congrArg (c :: ·) ih

/-- The lossy reading loses nothing of a text. -/
theorem lossy_bytesOf (text : String) : lossy (bytesOf text) = text := by
  rw [lossy, bytesOf, lossyFrom_encode, String.ofList_toList]

theorem decode?_bytesOf (text : String) : decode? (bytesOf text) = some text := by
  rw [decode?, bytesOf, lossyFrom_encode, if_pos rfl, String.ofList_toList]

end ModuleAudit.Utf8
