import Mdf.Proofs.Export.Csv
import Mdf.Proofs.Measurement.Shape

/-!
# Reading back the export

`read_csv_of_ofBytes` is the main statement: the export of whatever has been read follows the rules
of comma-separated values, and what is read from it are the names and, for each record, the texts of
its time and of its samples.  The names may hold any characters, and only they are ever quoted: no
text of a number holds a character that needs quotes (`field_repr`).
-/

namespace Mdf

namespace Csv

/-- No character of the text needs quotes. -/
def Plain (cs : List Char) : Prop := ∀ c ∈ cs, isSpecial c = false

instance (cs : List Char) : Decidable (Plain cs) := List.decidableBAll _ cs

lemma field_of_plain {s : String} (h : Plain s.toList) : field s = s :=
  if_neg (by simpa [Plain] using h)

lemma plain_append {cs ds : List Char} (hc : Plain cs) (hd : Plain ds) : Plain (cs ++ ds) :=
  List.forall_mem_append.mpr ⟨hc, hd⟩

lemma plain_cons {c : Char} {cs : List Char} (hc : isSpecial c = false) (hcs : Plain cs) :
    Plain (c :: cs) :=
  List.forall_mem_cons.mpr ⟨hc, hcs⟩

lemma plain_replicate {c : Char} (hc : isSpecial c = false) (n : Nat) :
    Plain (List.replicate n c) :=
  fun _ h => (List.mem_replicate.mp h).2 ▸ hc

lemma isSpecial_of_isDigit {c : Char} (h : c.isDigit = true) : isSpecial c = false := by
  by_contra hc
  simp only [isSpecial, Bool.not_eq_false, Bool.or_eq_true, beq_iff_eq] at hc
  rcases hc with ((rfl | rfl) | rfl) | rfl <;> exact absurd h (by decide)

lemma plain_toDigits (n : Nat) : Plain (Nat.toDigits 10 n) := fun _ hc =>
  isSpecial_of_isDigit (Nat.isDigit_of_mem_toDigits (by decide) (by decide) hc)

lemma plain_natRepr (n : Nat) : Plain (toString n).toList := by
  rw [Nat.toString_eq_repr, Nat.toList_repr]
  exact plain_toDigits n

end Csv

open Csv

/-! ### Numbers -/

namespace Decimal

lemma plain_positional (d : Decimal) : Plain d.positional.toList := by
  have hd : Plain d.digitChars := plain_toDigits d.digits
  unfold positional
  simp only
  split
  · rw [String.toList_ofList]
    exact plain_append hd (plain_replicate (by decide) _)
  split
  · rw [String.toList_ofList]
    exact plain_append (fun c hc => hd c (List.mem_of_mem_take hc))
      (plain_cons (by decide) fun c hc => hd c (List.mem_of_mem_drop hc))
  · rw [String.toList_ofList]
    have hzeros := plain_replicate (c := '0') (by decide)
    exact plain_append (plain_cons (by decide) (plain_cons (by decide) (hzeros _))) hd

lemma plain_mantissa (d : Decimal) : Plain d.mantissa.toList := by
  have hd : Plain d.digitChars := plain_toDigits d.digits
  unfold mantissa
  split
  · decide
  · rename_i c hc
    rw [String.toList_ofList, ← hc]
    exact hd
  · rename_i c cs _ hc
    rw [hc] at hd
    obtain ⟨hfirst, hrest⟩ := List.forall_mem_cons.mp hd
    rw [String.toList_ofList]
    exact plain_cons hfirst (plain_cons (by decide) hrest)

lemma plain_scientific (d : Decimal) : Plain d.scientific.toList := by
  unfold scientific
  simp only [String.toList_append, Numeral.padLeft, String.toList_ofList]
  refine plain_append (plain_append (plain_append d.plain_mantissa ?_) ?_)
    (plain_append (plain_replicate (by decide) _) (plain_natRepr _))
  · decide
  · split <;> decide

end Decimal

namespace Binary

lemma plain_repr {f : BinaryFormat} (x : Binary f) : Plain x.repr.toList := by
  have hsign : Plain x.sign.toList := by
    unfold sign
    split <;> decide
  unfold repr
  split
  · decide
  split
  · rw [String.toList_append]
    exact plain_append hsign (by decide)
  simp only
  split
  · rw [String.toList_append]
    refine plain_append hsign ?_
    split
    · exact x.shortest.plain_positional
    · rw [String.toList_append]
      exact plain_append x.shortest.plain_positional (by decide)
  · rw [String.toList_append]
    exact plain_append hsign x.shortest.plain_scientific

end Binary

lemma Value.plain_repr (v : Value) : Plain v.repr.toList := by
  have hint : ∀ i : Int, Plain (toString i).toList := by
    intro i
    cases i with
    | ofNat n => exact plain_natRepr n
    | negSucc n =>
      have htext : toString (Int.negSucc n) = "-" ++ toString (n + 1) := rfl
      rw [htext, String.toList_append]
      exact plain_append (by decide) (plain_natRepr _)
  unfold repr
  split
  · exact Binary.plain_repr _
  · exact Binary.plain_repr _
  · exact hint _

/-- **A number is written without quotes.** -/
theorem Value.field_repr (v : Value) : field v.repr = v.repr := field_of_plain v.plain_repr

theorem Binary.field_repr {f : BinaryFormat} (x : Binary f) : field x.repr = x.repr :=
  field_of_plain x.plain_repr

/-! ### Tables -/

namespace Measurement

variable {m : Measurement} {bytes : List UInt8} {expected : Option Version} {i : Nat} {t : Double}

/-- What is read is rectangular. -/
lemma rectangular_of_ofBytes (h : ofBytes bytes expected = .ok m) : m.Rectangular := by
  obtain ⟨header, g, _, _, _, _, _, -, -, -, -, -, hgroups, hm⟩ := exists_parts_of_ofBytes h
  rw [hm]
  exact (joined_of_readGroups hgroups g rfl).1.1

/-- The cells of a record are the texts of the samples at its index. -/
lemma exists_values {cs : List MeasuredChannel} {cells : List String}
    (h : List.Forall₂ (fun c text => m.cellText i c = .ok text) cs cells) :
    ∃ values : List Value, List.Forall₂ (fun c v => c.samples.get? i = some v) cs values ∧
      cells = values.map Value.repr := by
  induction h with
  | nil => exact ⟨[], .nil, rfl⟩
  | @cons c text cs cells hc _ ih =>
    obtain ⟨values, hvalues, rfl⟩ := ih
    unfold cellText at hc
    split at hc
    · rename_i v hv
      cases hc
      exact ⟨v :: values, .cons hv hvalues, rfl⟩
    · cases hc

lemma row_eq_ok {line : List String} (h : m.row i t = .ok line) :
    ∃ values : List Value, List.Forall₂ (fun c v => c.samples.get? i = some v) m.channels values ∧
      line = t.repr :: values.map Value.repr := by
  obtain ⟨cells, hcells, h⟩ := bind_eq_ok_iff.mp h
  cases h
  obtain ⟨values, hvalues, rfl⟩ := exists_values (forall₂_of_mapM_eq_ok hcells)
  exact ⟨values, hvalues, rfl⟩

/-- The lines of a table: the names, and below them one for each record. -/
lemma table_eq_ok {lines : List (List String)} (h : m.table = .ok lines) :
    lines[0]? = some (timeColumn :: m.channels.map MeasuredChannel.name) ∧
      ∀ i t, m.time[i]? = some t → ∃ line, lines[i + 1]? = some line ∧ m.row i t = .ok line := by
  obtain ⟨rows, hrows, h⟩ := bind_eq_ok_iff.mp h
  cases h
  have hf := forall₂_of_mapM_eq_ok hrows
  refine ⟨rfl, fun i t ht => ?_⟩
  obtain ⟨hi, htime⟩ := List.getElem?_eq_some_iff.mp ht
  have hzip : i < m.time.zipIdx.length := by rwa [List.length_zipIdx]
  have hlt : i < rows.length := hf.length_eq ▸ hzip
  have hrow := (List.forall₂_iff_get.mp hf).2 i hzip hlt
  refine ⟨rows[i], by rw [List.getElem?_cons_succ, List.getElem?_eq_getElem hlt], ?_⟩
  simpa [htime] using hrow

/-- **The export of what is read can be read back**, by the rules of comma-separated values and
whatever the names are.  There is a record for the names and one for each time, with a field for the
times and one for each channel; the first holds the names, in order, and each other one the text of
its time and those of the samples at its index. -/
theorem read_csv_of_ofBytes (h : ofBytes bytes expected = .ok m) :
    ∃ text records, m.csv = .ok text ∧ Csv.read text = some records ∧
      records.length = m.recordCount + 1 ∧
      (∀ record ∈ records, record.length = m.channels.length + 1) ∧
      records[0]? = some ("timestamps" :: m.channels.map MeasuredChannel.name) ∧
      ∀ i t, m.time[i]? = some t → ∃ values : List Value,
        List.Forall₂ (fun c v => c.samples.get? i = some v) m.channels values ∧
        records[i + 1]? = some (t.repr :: values.map Value.repr) := by
  obtain ⟨text, hcsv⟩ := csv_eq_ok (rectangular_of_ofBytes h)
  obtain ⟨lines, hlines, htext⟩ := bind_eq_ok_iff.mp hcsv
  cases htext
  obtain ⟨hlength, hwidth⟩ := table_shape hlines
  obtain ⟨hnames, hrows⟩ := table_eq_ok hlines
  have hread : Csv.read (Csv.table lines) = some lines := by
    refine Csv.read_table fun line hline hnil => ?_
    have hlen := hwidth line hline
    rw [hnil] at hlen
    cases hlen
  refine ⟨_, lines, hcsv, hread, hlength, hwidth, hnames, fun i t ht => ?_⟩
  obtain ⟨line, hline, hrow⟩ := hrows i t ht
  obtain ⟨values, hvalues, rfl⟩ := row_eq_ok hrow
  exact ⟨values, hvalues, hline⟩

/-- Two channels, one of an empty name and one of a name that must be quoted. -/
def awkward : Session :=
  ((Session.new .v410).run [.appendChannel ⟨[⟨0⟩]⟩ ⟨"", ⟨.uint8, [1]⟩⟩,
    .appendChannel ⟨[⟨0⟩]⟩ ⟨"a,\"b\"\r\n", ⟨.int8, [255]⟩⟩]).2

theorem read_csv_of_ofBytes_awkward :
    ∃ bytes m text records, awkward.file Deflate.storing = .ok bytes ∧
      ofBytes bytes none = .ok m ∧ m.csv = .ok text ∧ Csv.read text = some records ∧
      records[0]? = some ["timestamps", "", "a,\"b\"\r\n"] ∧
      records[1]? = some [(⟨0⟩ : Double).repr, "1", "-1"] := by
  have hr : awkward.Reachable := ⟨.v410, _, rfl⟩
  obtain ⟨bytes, hb⟩ : ∃ bytes, awkward.file Deflate.storing = .ok bytes :=
    exists_eq_ok_of_isOk (by decide +kernel)
  obtain ⟨time, ht, hread⟩ :=
    Session.ofBytes_file hr.consistent Deflate.inverts_storing hb none (by simp)
  cases ht.symm.trans (show awkward.time = some ⟨[⟨0⟩]⟩ from rfl)
  rw [Session.reopened_eq_ok_iff.mpr ⟨by decide, by decide, rfl⟩] at hread
  obtain ⟨text, records, hcsv, hrecords, -, -, hnames, hrows⟩ := read_csv_of_ofBytes hread
  obtain ⟨values, hvalues, hrow⟩ := hrows 0 ⟨0⟩ rfl
  obtain rfl : values = [⟨.uint8, 1⟩, ⟨.int8, 255⟩] := by
    obtain ⟨v, _, hv, hrest, rfl⟩ := List.forall₂_cons_left_iff.mp hvalues
    obtain ⟨w, _, hw, hnil, rfl⟩ := List.forall₂_cons_left_iff.mp hrest
    cases hv
    cases hw
    cases hnil
    rfl
  exact ⟨bytes, _, text, records, hb, hread, hcsv, hrecords, hnames.trans (by decide),
    hrow.trans rfl⟩

end Measurement

end Mdf
