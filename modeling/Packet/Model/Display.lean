/-
# Texts of errors

Each error is displayed as a text of its own, with its values written into it. The
texts open with different words, and each value is followed by words or stands at the
end, so the text tells the error and all of its values.
-/

import Packet.Math.Numerals
import Packet.Model.View

namespace Packet

open Math

theorem toList_numeral (n : ℕ) : (toString n).toList = Nat.toDigits 10 n := Nat.toList_repr

/-- `{:#06x}` of a word: `0x` and four digits. -/
def lowerHex (value : UInt16) : String :=
  "0x" ++ String.ofList ((Nat.toDigits 16 value.toNat).leftpad 4 '0')

/-- A word and what follows it are determined by the text they make. -/
theorem lowerHex_append_inj {value value' : UInt16} {rest rest' : List Char}
    (same : (lowerHex value).toList ++ rest = (lowerHex value').toList ++ rest') :
    value = value' ∧ rest = rest' := by
  simp only [lowerHex, String.toList_append, String.toList_ofList, List.append_assoc] at same
  have fits (word : UInt16) : word.toNat < 16 ^ 4 := word.toNat_lt
  obtain ⟨values, rests⟩ := padded_append_inj (by decide) (by decide) (by decide)
    (fits value) (fits value') (List.append_cancel_left same)
  exact ⟨UInt16.toNat_inj.mp values, rests⟩

example : lowerHex 0xcd = "0x00cd" := by decide +kernel

namespace PacketError

/-- `Display` -/
def display : PacketError → String
  | .tooShort needed actual =>
    "packet too short: need " ++ toString needed ++ " bytes, got " ++ toString actual
  | .invalidVersion expected actual =>
    "invalid version: expected " ++ toString expected.toNat ++ ", got " ++ toString actual.toNat
  | .invalidIpv4HeaderLength ihlWords =>
    "invalid IPv4 IHL: " ++ toString ihlWords.toNat ++ " (minimum is 5)"
  | .invalidIpv4TotalLength headerLen totalLen =>
    "IPv4 total_len " ++ toString totalLen ++ " is smaller than header_len " ++ toString headerLen
  | .fragmentedPacket => "packet is a fragment — payload is incomplete"
  | .invalidChecksum expected actual =>
    "invalid checksum: expected " ++ lowerHex expected ++ ", got " ++ lowerHex actual
  | .invalidUdpLength headerLen actual =>
    "UDP length field " ++ toString actual ++ " is smaller than header length " ++
      toString headerLen
  | .invalidTcpOptionLength kind length =>
    "TCP option kind " ++ toString kind.toNat ++ " has invalid length " ++
      toString length.toNat ++ " (minimum 2)"
  | .invalidTcpHeaderLength dataOffset =>
    "TCP data offset " ++ toString dataOffset.toNat ++ " is too small (minimum 5)"

/-- The words before the first value of each text. -/
def opening : Fin 9 → String
  | 0 => "packet too short: need "
  | 1 => "invalid version: expected "
  | 2 => "invalid IPv4 IHL: "
  | 3 => "IPv4 total_len "
  | 4 => "packet is a fragment — payload is incomplete"
  | 5 => "invalid checksum: expected "
  | 6 => "UDP length field "
  | 7 => "TCP option kind "
  | 8 => "TCP data offset "

/-- Which of these texts an error is displayed as. -/
def kind : PacketError → Fin 9
  | .tooShort _ _ => 0
  | .invalidVersion _ _ => 1
  | .invalidIpv4HeaderLength _ => 2
  | .invalidIpv4TotalLength _ _ => 3
  | .fragmentedPacket => 4
  | .invalidChecksum _ _ => 5
  | .invalidUdpLength _ _ => 6
  | .invalidTcpOptionLength _ _ => 7
  | .invalidTcpHeaderLength _ => 8

/-- No two texts open alike. -/
theorem openings_part :
    ∀ i j : Fin 9, (opening i).toList <+: (opening j).toList → i = j := by decide +kernel

/-- Each text begins with the words of its kind. -/
theorem begins_with_opening (error : PacketError) :
    ∃ rest, error.display.toList = (opening error.kind).toList ++ rest := by
  unfold display
  cases error with
  | fragmentedPacket => exact ⟨[], (List.append_nil _).symm⟩
  | _ =>
    simp only [kind, opening, String.toList_append, List.append_assoc]
    exact ⟨_, rfl⟩

theorem kind_eq_of_display_eq {error error' : PacketError}
    (same : error.display = error'.display) : error.kind = error'.kind := by
  obtain ⟨rest, text⟩ := error.begins_with_opening
  obtain ⟨rest', text'⟩ := error'.begins_with_opening
  rw [same, text'] at text
  rcases prefix_of_append_eq text with opens | opens
  · exact (openings_part _ _ opens).symm
  · exact openings_part _ _ opens

/-- The text of an error tells the error and its values. -/
theorem eq_of_display_eq {error error' : PacketError} (same : error.display = error'.display) :
    error = error' := by
  have kinds := kind_eq_of_display_eq same
  have texts := congrArg String.toList same
  unfold display at texts
  cases error with
  | tooShort needed actual =>
    cases error' with
    | tooShort needed' actual' =>
      simp only [String.toList_append, List.append_assoc, toList_numeral] at texts
      obtain ⟨rfl, rfl⟩ := numerals_inj_end _ (by exact rfl) (by decide) texts
      rfl
    | _ => cases kinds
  | invalidVersion expected actual =>
    cases error' with
    | invalidVersion expected' actual' =>
      simp only [String.toList_append, List.append_assoc, toList_numeral] at texts
      obtain ⟨first, second⟩ := numerals_inj_end _ (by exact rfl) (by decide) texts
      rw [UInt8.toNat_inj.mp first, UInt8.toNat_inj.mp second]
    | _ => cases kinds
  | invalidIpv4HeaderLength ihlWords =>
    cases error' with
    | invalidIpv4HeaderLength ihlWords' =>
      simp only [String.toList_append, List.append_assoc, toList_numeral] at texts
      rw [UInt8.toNat_inj.mp (numeral_inj _ (by exact rfl) texts)]
    | _ => cases kinds
  | invalidIpv4TotalLength headerLen totalLen =>
    cases error' with
    | invalidIpv4TotalLength headerLen' totalLen' =>
      simp only [String.toList_append, List.append_assoc, toList_numeral] at texts
      obtain ⟨rfl, rfl⟩ := numerals_inj_end _ (by exact rfl) (by decide) texts
      rfl
    | _ => cases kinds
  | fragmentedPacket =>
    cases error' with
    | fragmentedPacket => rfl
    | _ => cases kinds
  | invalidChecksum expected actual =>
    cases error' with
    | invalidChecksum expected' actual' =>
      simp only [String.toList_append, List.append_assoc] at texts
      obtain ⟨rfl, rest⟩ := lowerHex_append_inj (List.append_cancel_left texts)
      rw [← List.append_nil (lowerHex actual).toList, ← List.append_nil (lowerHex actual').toList]
        at rest
      obtain ⟨rfl, _⟩ := lowerHex_append_inj (List.append_cancel_left rest)
      rfl
    | _ => cases kinds
  | invalidUdpLength headerLen actual =>
    cases error' with
    | invalidUdpLength headerLen' actual' =>
      simp only [String.toList_append, List.append_assoc, toList_numeral] at texts
      obtain ⟨rfl, rfl⟩ := numerals_inj_end _ (by exact rfl) (by decide) texts
      rfl
    | _ => cases kinds
  | invalidTcpOptionLength kind length =>
    cases error' with
    | invalidTcpOptionLength kind' length' =>
      simp only [String.toList_append, List.append_assoc, toList_numeral] at texts
      obtain ⟨first, second⟩ := numerals_inj _ (by exact rfl) (by decide) (by exact rfl) texts
      rw [UInt8.toNat_inj.mp first, UInt8.toNat_inj.mp second]
    | _ => cases kinds
  | invalidTcpHeaderLength dataOffset =>
    cases error' with
    | invalidTcpHeaderLength dataOffset' =>
      simp only [String.toList_append, List.append_assoc, toList_numeral] at texts
      rw [UInt8.toNat_inj.mp (numeral_inj _ (by exact rfl) texts)]
    | _ => cases kinds

end PacketError

end Packet
