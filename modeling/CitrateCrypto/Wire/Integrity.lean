import CitrateCrypto.Wire.Hex

namespace CitrateCrypto.Wire

open FieldEngine

-- SHA-256, as a function of the bytes it digests
variable (sha256 : List Byte → List Byte)

/-- `generate_model_key`, with the 32 bytes it draws. -/
def generateModelKey (key : List Byte) : String := hex key

/-- `hash_model_data`: `hashlib.sha256(data).hexdigest()`. -/
def hashModelData (data : List Byte) : String := hex (sha256 data)

def verifyModelIntegrity (data : List Byte) (expectedHash : String) : Bool :=
  hashModelData sha256 data == expectedHash

theorem mem_hexChars {bs : List Byte} {c : Char} (h : c ∈ hexChars bs) :
    isSpace c = false ∧ c.toLower = c := by
  obtain ⟨b, -, hb⟩ := List.mem_flatMap.mp h
  simp only [byteHex, List.mem_cons, List.not_mem_nil, or_false] at hb
  have h16 : b.val / 16 < 16 := by omega
  rcases hb with rfl | rfl
  exacts [⟨isSpace_hexDigit _ h16, toLower_hexDigit _ h16⟩,
    ⟨isSpace_hexDigit _ (Nat.mod_lt _ (by decide)), toLower_hexDigit _ (Nat.mod_lt _ (by decide))⟩]

/-- `verify_model_integrity` accepts exactly the texts that `bytes.fromhex` reads as the digest
and that are written as `hexdigest()` writes them, in lower case and without whitespace. -/
theorem verifyModelIntegrity_iff (data : List Byte) (expectedHash : String) :
    verifyModelIntegrity sha256 data expectedHash = true ↔
      fromhex expectedHash = .ok (sha256 data) ∧
        ∀ c ∈ expectedHash.toList, isSpace c = false ∧ c.toLower = c := by
  rw [verifyModelIntegrity, beq_iff_eq, hashModelData]
  constructor
  · rintro rfl
    exact ⟨fromhex_hex _, fun c hc => mem_hexChars hc⟩
  · rintro ⟨h, hchars⟩
    have hlower := hexChars_of_fromhex h
    rw [List.filter_eq_self.mpr fun c hc => by rw [(hchars c hc).1]; rfl] at hlower
    rw [hex, hlower, List.map_congr_left fun c hc => (hchars c hc).2, List.map_id']
    rfl

end CitrateCrypto.Wire
