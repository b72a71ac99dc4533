import HandsFree.Proofs.AtCommand
import HandsFree.Proofs.Service.Requests

/-! The tone of a character. In an AT text the character stands between blanks; it is handed on as a code point
    and comes back as the character itself, so no text can ask for a tone that does not exist. Codes that come
    from elsewhere may. -/

namespace HandsFree

/-! ### Codes and characters -/

theorem toneOfCode_eq_ok_iff {code : Int32} {tone : Char} : toneOfCode code = .ok tone ↔ code.toInt = tone.toNat := by
  refine ⟨Service.code_of_toneOfCode, fun h => ?_⟩
  have hnat : code.toInt.toNat = tone.toNat := by omega
  have hvalid : 0 ≤ code.toInt ∧ code.toInt.toNat.isValidChar := ⟨by omega, hnat ▸ tone.valid⟩
  rw [toneOfCode, if_pos hvalid, hnat, Char.ofNat_toNat]

/-- The code points of characters: all but the surrogates. -/
def IsScalar (n : Int) : Prop := (0 ≤ n ∧ n ≤ 0xD7FF) ∨ (0xE000 ≤ n ∧ n ≤ 0x10FFFF)

theorem isScalar_toNat (c : Char) : IsScalar c.toNat := by
  have hvalid := c.valid
  change c.toNat < 0xD800 ∨ 0xDFFF < c.toNat ∧ c.toNat < 0x110000 at hvalid
  unfold IsScalar
  omega

theorem IsScalar.exists_char {n : Int} (h : IsScalar n) : ∃ c : Char, n = c.toNat := by
  unfold IsScalar at h
  have hvalid : n.toNat.isValidChar := by
    change n.toNat < 0xD800 ∨ 0xDFFF < n.toNat ∧ n.toNat < 0x110000
    omega
  refine ⟨Char.ofNat n.toNat, ?_⟩
  rw [Service.toNat_ofNat hvalid]
  omega

theorem isScalar_iff {code : Int32} : IsScalar code.toInt ↔ ∃ tone, toneOfCode code = .ok tone := by
  constructor
  · intro h
    obtain ⟨tone, htone⟩ := h.exists_char
    exact ⟨tone, toneOfCode_eq_ok_iff.mpr htone⟩
  · rintro ⟨tone, htone⟩
    rw [toneOfCode_eq_ok_iff.mp htone]
    exact isScalar_toNat tone

namespace AtCommand

/-- A character that is the whole trimmed argument of a text. -/
theorem Carries.exists_tone {b : List Char} {code : Int32} (h : Carries b (.sendTone code)) :
    ∃ w tone, b = "VTS=".toList ++ w ∧ Text.trim w = [tone] ∧ toneOfCode code = .ok tone ∧
      Text.isBlank tone = false ∧ tone ≠ ',' ∧ tone ≠ '?' := by
  obtain ⟨w, tone, hb, hquery, hcomma, htrim, hcode⟩ := h
  have hmem : tone ∈ w := Text.mem_of_mem_trim (htrim ▸ List.mem_singleton_self tone)
  have hblank : Text.isBlank tone = false := (Text.trimmed_trim w).head tone (by rw [htrim]; rfl)
  exact ⟨w, tone, hb, htrim, toneOfCode_eq_ok_iff.mpr hcode, hblank, fun h => hcomma (h ▸ hmem),
    fun h => hquery (h ▸ hmem)⟩

end AtCommand

namespace Service
variable {s : Service} {code : Int32} {tone : Char} {f : CallId}

/-! ### Playing a tone -/

/-- The tone starts and stops on the call, and nothing else happens. -/
theorem handle_sendTone_of_ok (hf : s.calls.foreground? = some f) (htone : toneOfCode code = .ok tone) :
    s.handle (.sendTone code) = ⟨s, .status true, [.request (.playTone f tone), .request (.stopTone f)]⟩ := by
  simp only [handle, sendTone, hf, htone]

theorem handle_sendTone_of_foreground?_eq_none (hf : s.calls.foreground? = none) (code : Int32) :
    s.handle (.sendTone code) = ⟨s, .status false, []⟩ := by
  simp only [handle, sendTone, hf]

theorem handle_sendTone_of_error {e : CommandError} (htone : toneOfCode code = .error e) :
    s.handle (.sendTone code) = ⟨s, .status false, []⟩ := by
  rw [handle, sendTone, htone]
  cases s.calls.foreground? <;> rfl

theorem response_sendTone_iff (hf : s.calls.foreground? = some f) :
    (s.handle (.sendTone code)).response = .status true ↔ IsScalar code.toInt := by
  rw [isScalar_iff]
  cases htone : toneOfCode code with
  | ok tone => simp [handle_sendTone_of_ok hf htone]
  | error e => simp [handle_sendTone_of_error htone]

/-- A text that carries a tone has the character for it as its whole trimmed argument. It is no white space, no
    comma and no question mark, its code always stands for a tone, and that tone is played on the foreground call,
    if there is one. A code from elsewhere is refused exactly if it is no code point of a character. -/
theorem tone_of_text_played (s : Service) :
    (∀ text code, Command.ofText text = .ok (.sendTone code) →
      ∃ w tone, AtCommand.body text.toList = "VTS=".toList ++ w ∧ Text.trim w = [tone] ∧ code.toInt = tone.toNat ∧
        Text.isBlank tone = false ∧ tone ≠ ',' ∧ tone ≠ '?' ∧ toneOfCode code = .ok tone ∧
        (∀ f, s.calls.foreground? = some f → s.handle (.sendTone code) =
          ⟨s, .status true, [.request (.playTone f tone), .request (.stopTone f)]⟩) ∧
        (s.calls.foreground? = none → s.handle (.sendTone code) = ⟨s, .status false, []⟩)) ∧
    ∀ (code : Int32) f, s.calls.foreground? = some f →
      ((s.handle (.sendTone code)).response = .status true ↔ IsScalar code.toInt) ∧
      (IsScalar code.toInt → ∃ tone : Char, code.toInt = tone.toNat ∧ s.handle (.sendTone code) =
        ⟨s, .status true, [.request (.playTone f tone), .request (.stopTone f)]⟩) ∧
      (¬IsScalar code.toInt → s.handle (.sendTone code) = ⟨s, .status false, []⟩) := by
  refine ⟨fun text code h => ?_, fun code f hf => ⟨response_sendTone_iff hf, fun h => ?_, fun h => ?_⟩⟩
  · obtain ⟨w, tone, hb, htrim, htone, hblank, hcomma, hquery⟩ := (Command.ofText_eq_ok_iff.mp h).exists_tone
    exact ⟨w, tone, hb, htrim, toneOfCode_eq_ok_iff.mp htone, hblank, hcomma, hquery, htone,
      fun f hf => handle_sendTone_of_ok hf htone, fun hf => handle_sendTone_of_foreground?_eq_none hf code⟩
  · obtain ⟨tone, htone⟩ := isScalar_iff.mp h
    exact ⟨tone, toneOfCode_eq_ok_iff.mp htone, handle_sendTone_of_ok hf htone⟩
  · rw [isScalar_iff, not_exists] at h
    cases htone : toneOfCode code with
    | ok tone => exact absurd htone (h tone)
    | error e => exact handle_sendTone_of_error htone

/-- A call rings and another is dialled; no headset is attached. -/
def knockedWhileDialing : Service :=
  { calls := ⟨[{ id := ⟨1⟩, state := .dialing }, { id := ⟨2⟩, state := .ringing }]⟩ }

/-- The text has an ideographic space before the tone and ends in a carriage return. -/
theorem tone_of_text_played_ideographicSpace :
    Command.ofText "AT+VTS=\u3000# \r" = .ok (.sendTone 35) ∧
    knockedWhileDialing.calls.foreground? = some ⟨2⟩ ∧
    knockedWhileDialing.handle (.sendTone 35) =
      ⟨knockedWhileDialing, .status true, [.request (.playTone ⟨2⟩ '#'), .request (.stopTone ⟨2⟩)]⟩ ∧
    (knockedWhileDialing.handle (.sendTone 0x10FFFF)).response = .status true ∧
    knockedWhileDialing.handle (.sendTone 0xDFFF) = ⟨knockedWhileDialing, .status false, []⟩ := by
  obtain ⟨htext, hcode⟩ := tone_of_text_played knockedWhileDialing
  have hread : Command.ofText "AT+VTS=\u3000# \r" = .ok (.sendTone 35) := by rfl
  have hf : knockedWhileDialing.calls.foreground? = some ⟨2⟩ := rfl
  obtain ⟨w, tone, -, -, -, -, -, -, htone, hplay, -⟩ := htext _ _ hread
  obtain rfl : '#' = tone := Except.ok.inj htone
  have hlast : IsScalar (0x10FFFF : Int32).toInt := Or.inr (by decide)
  have hsurrogate : ¬IsScalar (0xDFFF : Int32).toInt := by
    unfold IsScalar
    decide
  exact ⟨hread, hf, hplay ⟨2⟩ hf, (hcode _ _ hf).1.mpr hlast, (hcode _ _ hf).2.2 hsurrogate⟩

end Service
end HandsFree
