import ChainFollower.Text.Base64

/-!
# Base64 is read back

Three bytes are taken apart into four numbers of six bits, and each of these has a symbol of its
own.  So the symbols of any bytes, padding included, are read as the bytes.

Main statements: `Base64.decode?_encode` and `Base64.length_encode`.
-/

namespace ChainFollower.Base64

/-! ## Symbols -/

theorem value?_symbol {n : Nat} (h : n < 64) : value? (symbol n) = some n := by
  revert n
  decide

/-- Padding is no symbol. -/
theorem symbol_ne_pad {n : Nat} (h : n < 64) : symbol n ≠ '=' := by
  revert n
  decide

/-! ## Groups of symbols -/

/-- A group of four symbols, the last one no padding, stands for three bytes. -/
theorem decode?_group {x y z w : Nat} {bs : Octets} {rest : List Char} (hx : x < 64) (hy : y < 64)
    (hz : z < 64) (hw : w < 64) (hrest : decode? rest = some bs) :
    decode? (symbol x :: symbol y :: symbol z :: symbol w :: rest) =
      some (UInt8.ofNat (4 * x + y / 16) :: UInt8.ofNat (y % 16 * 16 + z / 4) ::
        UInt8.ofNat (z % 4 * 64 + w) :: bs) := by
  have hpad := symbol_ne_pad hw
  rw [decode?]
  · simp [value?_symbol hx, value?_symbol hy, value?_symbol hz, value?_symbol hw, hrest]
  -- A group that ends in padding would be the last one.
  · intro _ heq
    exact absurd heq hpad
  · intro heq
    exact absurd heq hpad

/-- Two symbols and padding stand for one byte. -/
theorem decode?_pair {x y : Nat} (hx : x < 64) (hy : y < 64) (hzeros : y % 16 = 0) :
    decode? [symbol x, symbol y, '=', '='] = some [UInt8.ofNat (4 * x + y / 16)] := by
  simp only [decode?, value?_symbol hx, value?_symbol hy, hzeros, if_true]

/-- Three symbols and padding stand for two bytes. -/
theorem decode?_triple {x y z : Nat} (hx : x < 64) (hy : y < 64) (hz : z < 64)
    (hzeros : z % 4 = 0) :
    decode? [symbol x, symbol y, symbol z, '='] =
      some [UInt8.ofNat (4 * x + y / 16), UInt8.ofNat (y % 16 * 16 + z / 4)] := by
  have hpad := symbol_ne_pad hz
  rw [decode?]
  · simp only [value?_symbol hx, value?_symbol hy, value?_symbol hz, hzeros, if_true]
  · intro heq
    exact absurd heq hpad

/-! ## Bytes -/

/-- The symbols of bytes are read as the bytes. -/
theorem decode?_encode (bs : Octets) : decode? (encode bs) = some bs := by
  induction bs using encode.induct with
  | case1 => rfl
  | case2 a =>
    -- Six bits and two bits; the four bits behind them are zero.
    have ha := a.toNat_lt
    have hfirst : 4 * (a.toNat / 4) + a.toNat % 4 * 16 / 16 = a.toNat := by omega
    rw [encode, decode?_pair (by omega) (by omega) (by omega), hfirst, UInt8.ofNat_toNat]
  | case3 a b =>
    have ha := a.toNat_lt
    have hb := b.toNat_lt
    have hfirst : 4 * (a.toNat / 4) + (a.toNat % 4 * 16 + b.toNat / 16) / 16 = a.toNat := by omega
    have hsecond : (a.toNat % 4 * 16 + b.toNat / 16) % 16 * 16 + b.toNat % 16 * 4 / 4 =
        b.toNat := by omega
    rw [encode, decode?_triple (by omega) (by omega) (by omega) (by omega), hfirst, hsecond,
      UInt8.ofNat_toNat, UInt8.ofNat_toNat]
  | case4 a b c rest ih =>
    have ha := a.toNat_lt
    have hb := b.toNat_lt
    have hc := c.toNat_lt
    have hfirst : 4 * (a.toNat / 4) + (a.toNat % 4 * 16 + b.toNat / 16) / 16 = a.toNat := by omega
    have hsecond : (a.toNat % 4 * 16 + b.toNat / 16) % 16 * 16 +
        (b.toNat % 16 * 4 + c.toNat / 64) / 4 = b.toNat := by omega
    have hthird : (b.toNat % 16 * 4 + c.toNat / 64) % 4 * 64 + c.toNat % 64 = c.toNat := by omega
    rw [encode, decode?_group (by omega) (by omega) (by omega) (by omega) ih, hfirst, hsecond,
      hthird, UInt8.ofNat_toNat, UInt8.ofNat_toNat, UInt8.ofNat_toNat]

/-! ## Lengths -/

/-- Four symbols for every three bytes that are begun. -/
theorem length_encode (bs : Octets) : (encode bs).length = 4 * ((bs.length + 2) / 3) := by
  induction bs using encode.induct with
  | case1 => rfl
  | case2 a => simp [encode]
  | case3 a b => simp [encode]
  | case4 a b c rest ih =>
    simp only [encode, List.length_cons, ih]
    omega

/-- A short last group is padded. -/
theorem pad_mem_encode {bs : Octets} (h : bs.length % 3 ≠ 0) : '=' ∈ encode bs := by
  induction bs using encode.induct with
  | case1 => exact absurd rfl h
  | case2 a => simp [encode]
  | case3 a b => simp [encode]
  | case4 a b c rest ih =>
    have hrest : rest.length % 3 ≠ 0 := by
      simp only [List.length_cons] at h
      omega
    simp [encode, ih hrest]

end ChainFollower.Base64
