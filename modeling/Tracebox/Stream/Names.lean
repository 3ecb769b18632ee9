import Tracebox.Stream.Reliable
import Tracebox.Stream.RoundTrip

/-!
# Stream names

`writeHeader` copies up to 32 bytes of the channel into a field of 32 bytes, and `FileReader::name`
reads the field as a C string.  A name that fills the field leaves no room for a terminator, and the
read goes on **behind the header object**, into memory that no file determines.

* `Headed` — a file that begins with a header of the writer, whatever came after it.
* `name_of_hasHeader` — the name its reader reports, with the memory behind the header in it.
* `names_agree_iff` — when two readers of such files report the same name.
* `name_survives_iff` — the name comes back for channels of at most 31 bytes, in files whose size
  is not taken for zero.
-/

namespace Tracebox

open Bytes StreamWriter

/-- A file that begins with the header `writeHeader` put into it. -/
def StreamWriter.Headed (s : StreamWriter) (host : Host) (type : UInt8) (content : Bytes) : Prop :=
  ∃ (f : FileIo) (time_ns : UInt64) (w : World), f.inode < w.inodes ∧ w.content f.inode = [] ∧
    0 < (s.writeHeader host f time_ns type w).1 ∧
    (s.writeHeader host f time_ns type w).2.content f.inode <+: content

variable {host : Host} {s : StreamWriter} {type : UInt8} {content : Bytes}

lemma StreamWriter.Headed.hasHeader (h : s.Headed host type content) :
    ∃ time_ns, HasHeader content (s.header time_ns type) := by
  obtain ⟨f, time_ns, w, hf, hnil, hpos, hprefix⟩ := h
  obtain ⟨-, he⟩ := writeHeader_pos hf hpos.le
  rw [he.content, hnil, List.nil_append, Tape.project_tag_self] at hprefix
  exact ⟨time_ns, hasHeader_mono hprefix⟩

/-- **The name a reader reports.**  A size of zero modulo `2 ^ 32` stands for no file. -/
lemma name_of_hasHeader {time_ns : UInt64} (hh : HasHeader content (s.header time_ns type))
    {v : View} {p : Path} (hlook : v.look p = some (.file content)) : (FileReader.make v p).name =
      if content.length % 2 ^ 32 = 0 then [] else cString (nameField s.name_ ++ v.overrun p) := by
  split_ifs with hzero
  · have hc : FileReader.contentOf v p = content := by rw [FileReader.contentOf, hlook]
    simp only [FileReader.make, hc, hzero, if_true, FileReader.name]
  · obtain ⟨-, -, hmake⟩ :=
      FileReader.make_of_some hlook (FileReader.make_of_hasHeader hlook hh hzero)
    rw [hmake]
    rfl

lemma name_of_headed (h : s.Headed host type content) {v : View} {p : Path}
    (hlook : v.look p = some (.file content)) : (FileReader.make v p).name =
      if content.length % 2 ^ 32 = 0 then [] else cString (nameField s.name_ ++ v.overrun p) := by
  obtain ⟨time_ns, hh⟩ := h.hasHeader
  exact name_of_hasHeader hh hlook

/-- A name that fills the field is read together with what lies behind it. -/
lemma cString_nameField_long {name : Bytes} (hl : 32 ≤ name.length) (h0 : (0 : UInt8) ∉ name)
    (rest : Bytes) : cString (nameField name ++ rest) = name.take 32 ++ cString rest := by
  have hfield : nameField name = name.take 32 := by
    rw [nameField, Nat.sub_eq_zero_of_le hl, List.replicate_zero, List.append_nil]
  rw [hfield, cString, List.takeWhile_append_of_pos]
  · rfl
  · intro b hb
    have hne : b ≠ 0 := fun h => h0 (h ▸ List.mem_of_mem_take hb)
    simpa using hne

/-- Two readers agree on a name, whatever lies behind their headers, when it leaves room for a
terminator; the second one may have no header at all. -/
lemma names_agree_iff {name : Bytes} (h0 : (0 : UInt8) ∉ name) (m : Prop) [Decidable m] :
    (∀ x y : Bytes, (if m then [] else cString (nameField name ++ y)) =
      cString (nameField name ++ x)) ↔ name.length ≤ 31 ∧ (name = [] ∨ ¬ m) := by
  constructor
  · intro h
    have hl : name.length ≤ 31 := by
      by_contra hl
      have hnil : cString [] = [] := rfl
      have hone : cString [1] = [1] := by decide
      have h1 := h [] [1]
      rw [cString_nameField_long (by omega) h0, cString_nameField_long (by omega) h0, hnil, hone,
        List.append_nil] at h1
      have hlen := congrArg List.length h1
      split_ifs at hlen
      · simp only [List.length_take, List.length_nil] at hlen
        omega
      · simp at hlen
    refine ⟨hl, ?_⟩
    have h1 := h [] []
    rw [cString_nameField hl h0] at h1
    by_cases hm : m
    · rw [if_pos hm] at h1
      exact Or.inl h1.symm
    · exact Or.inr hm
  · rintro ⟨hl, hm⟩ x y
    rw [cString_nameField hl h0, cString_nameField hl h0]
    split_ifs with h
    · exact (hm.resolve_right (not_not.mpr h)).symm
    · rfl

/-- Two files at two paths, and a byte in the memory behind their headers. -/
def twoFiles (index data : Bytes) : View where
  look p := if p = [] then some (.file index) else some (.file data)
  children _ := []
  weakly_canonical _ := none
  overrun _ := [1]

/-- **The name survives the header** for channels that leave room for a terminator. -/
theorem name_survives_iff {type' : UInt8} {index data : Bytes} (h0 : (0 : UInt8) ∉ s.name_)
    (hi : s.Headed host type index) (hd : s.Headed host type' data) :
    (∀ (v : View) (p q : Path), v.look p = some (.file index) → v.look q = some (.file data) →
      (FileReader.make v p).name = s.name_.take 32 ∧
      (FileReader.make v q).name = s.name_.take 32 ∧
      (FileReader.make v q).name = (FileReader.make v p).name) ↔
    s.name_.length ≤ 31 ∧
      (s.name_ = [] ∨ index.length % 2 ^ 32 ≠ 0 ∧ data.length % 2 ^ 32 ≠ 0) := by
  constructor
  · intro hall
    obtain ⟨hp, hq, -⟩ := hall (twoFiles index data) [] [[]] rfl rfl
    rw [name_of_headed hi rfl] at hp
    rw [name_of_headed hd rfl] at hq
    -- a file without a readable size has the empty name
    have hempty : ∀ {n : ℕ} {bs : Bytes}, (if n % 2 ^ 32 = 0 then [] else bs) =
      s.name_.take 32 →
        s.name_ ≠ [] → n % 2 ^ 32 ≠ 0 := by
      intro n bs h hne hzero
      rw [if_pos hzero] at h
      have hlen := congrArg List.length h
      rw [List.length_take, List.length_nil] at hlen
      have := List.length_pos_iff.mpr hne
      omega
    by_cases hne : s.name_ = []
    · simp [hne]
    · refine ⟨?_, Or.inr ⟨hempty hp hne, hempty hq hne⟩⟩
      by_contra hl
      rw [if_neg (hempty hp hne), cString_nameField_long (by omega) h0] at hp
      have hone : cString [1] = [1] := by decide
      exact absurd (hone.symm.trans (List.append_right_eq_self.mp hp)) (List.cons_ne_nil _ _)
  · rintro ⟨hl, hsizes⟩ v p q hp hq
    have htake : s.name_.take 32 = s.name_ := List.take_of_length_le (by omega)
    have hname : ∀ {type : UInt8} {content : Bytes} {p : Path}, s.Headed host type content →
        v.look p = some (.file content) → s.name_ = [] ∨ content.length % 2 ^ 32 ≠ 0 →
        (FileReader.make v p).name = s.name_ := by
      intro type content p h hlook hne
      rw [name_of_headed h hlook, cString_nameField hl h0]
      split_ifs with hzero
      · exact (hne.resolve_right (not_not.mpr hzero)).symm
      · rfl
    have hip := hname hi hp (hsizes.imp_right And.left)
    have hdq := hname hd hq (hsizes.imp_right And.right)
    rw [htake]
    exact ⟨hip, hdq, hdq.trans hip.symm⟩

/-- Nothing but a header. -/
lemma headed_header (s : StreamWriter) (time_ns : UInt64) (type : UInt8) :
    s.Headed .january type (s.header time_ns type).encode := by
  obtain ⟨hval, he⟩ := writeHeader_reliable Host.neverFails_january s (f := ⟨0, true⟩)
    (w := (World.bare []).create [[]]) time_ns type rfl Nat.zero_lt_one
  refine ⟨⟨0, true⟩, time_ns, (World.bare []).create [[]], Nat.zero_lt_one, rfl, ?_, ?_⟩
  · rw [hval]
    decide
  · rw [he.content, Tape.project_tag_self]
    exact List.prefix_rfl

/-- Whatever comes after the header in memory. -/
theorem name_survives_camera :
    let s : StreamWriter := { folder_ := [], name_ := ascii "camera" }
    let index := (s.header 7 kIndexFile).encode
    let data := (s.header 7 kDataFile).encode
    (FileReader.make (twoFiles index data) []).name = ascii "camera" ∧
    (FileReader.make (twoFiles index data) [[]]).name = ascii "camera" := by
  intro s index data
  obtain ⟨hnul, hlen, htake⟩ : (0 : UInt8) ∉ s.name_ ∧ s.name_.length ≤ 31 ∧
      s.name_.take 32 = ascii "camera" := by
    decide +kernel
  have hiff := name_survives_iff (s := s) hnul (headed_header s 7 kIndexFile)
    (headed_header s 7 kDataFile)
  have hheader : ∀ h : LogFileHeader, h.encode.length % 2 ^ 32 ≠ 0 := fun h => by
    rw [h.length_encode]
    decide
  obtain ⟨hi, hd, -⟩ := hiff.mpr ⟨hlen, Or.inr ⟨hheader _, hheader _⟩⟩
    (twoFiles index data) [] [[]] rfl rfl
  exact ⟨hi.trans htake, hd.trans htake⟩

/-- A new stream of a channel. -/
def channelOpened (channel : Bytes) : Outcome × StreamWriter × World :=
  ({ folder_ := [ascii "r"] } : StreamWriter).openFile .january
    { channel := channel, size := 0, data := [], time_ns := 1704067200000000000 }
    (.bare [ascii "r"])

/-- One record written to it. -/
def channelRun (channel : Bytes) : List (ℕ × Record) × StreamWriter × World :=
  (channelOpened channel).2.1.run .january [⟨1704067200000000000, [1]⟩]
    (channelOpened channel).2.2

/-- A file of the channel. -/
def channelPath (channel extension : Bytes) : Path :=
  [ascii "r", ascii "000000_" ++ channel ++ ascii "_0" ++ extension]

/-- **A channel of 32 bytes.**  Its record is written.  With an `x` in the memory behind the header
of the data file, the stream is taken for two files that do not belong together. -/
theorem wide_name_differs :
    let channel := List.replicate 32 97
    let w := (channelRun channel).2.2
    let v := w.view (fun _ i => w.content i) fun p =>
      if p = channelPath channel dotData then [120] else []
    (channelRun channel).1.map Prod.snd = [⟨1704067200000000000, [1]⟩] ∧
    (FileReader.make v (channelPath channel dotIdx)).name = channel ∧
    (FileReader.make v (channelPath channel dotData)).name = channel ++ [120] ∧
    (StreamReader.make v (channelPath channel dotIdx)).status_ = .kHeadersDifferent := by
  decide +kernel

end Tracebox
