import StackScript.Machine.Fast.Load
import StackScript.Proofs.Code.Restored
import StackScript.Proofs.Datum.Nesting

/-!
# Cut code files

A file of which the end is missing is not loaded. The length of a section stands before its text, but
a reader takes what is left if less is left than the length says. So what refuses a cut file is the
text of the section with the cut: it is a list or a table of which the end is missing.

* `load_of_cut`: neither machine loads a cut file of a compiled program.
-/

namespace StackScript

/-- A beginning that is not shorter than the first of two parts has that part. -/
theorem exists_of_prefix_append {α : Type} {cut front back : List α} (h : cut <+: front ++ back)
    (hlength : front.length ≤ cut.length) : ∃ cut', cut = front ++ cut' ∧ cut' <+: back := by
  obtain ⟨cut', rfl⟩ := List.prefix_of_prefix_length_le (List.prefix_append front back) h hlength
  exact ⟨cut', rfl, (List.prefix_append_right_inj front).1 h⟩

/-! ## Texts of the basic set -/

namespace Text

variable {s : String}

theorem encodeUtf8_basic (h : ∀ c ∈ s.toList, c.toNat < 0x80) :
    encodeUtf8 s = s.toList.map fun c => UInt8.ofNat c.toNat := by
  unfold encodeUtf8
  rw [List.flatMap_congr fun c hc => (by simp [encodeChar, h c hc] :
    encodeChar c = [UInt8.ofNat c.toNat])]
  exact List.flatMap_pure_eq_map _ _

/-- The first bytes of a text of the basic set are its first characters. -/
theorem exists_of_prefix_encodeUtf8 (h : ∀ c ∈ s.toList, c.toNat < 0x80)
    {cut : List UInt8} (hcut : cut <+: encodeUtf8 s) :
    ∃ cs, cs <+: s.toList ∧ cut = encodeUtf8 (String.ofList cs) := by
  have htake : cut = encodeUtf8 (String.ofList (s.toList.take cut.length)) := by
    have hbasic : ∀ c ∈ (String.ofList (s.toList.take cut.length)).toList, c.toNat < 0x80 := by
      rw [String.toList_ofList]
      exact fun c hc => h c (List.mem_of_mem_take hc)
    rw [encodeUtf8_basic hbasic, String.toList_ofList, List.map_take, ← encodeUtf8_basic h]
    exact List.prefix_iff_eq_take.1 hcut
  exact ⟨_, List.take_prefix _ _, htake⟩

end Text

/-! ## Sections -/

namespace CodeFile

section Cut

variable {cut : List UInt8}

variable {rest body : List UInt8}

theorem le_of_takeNumber {count n : Nat} (h : takeNumber count cut = .ok (n, rest)) :
    count ≤ cut.length := by
  unfold takeNumber at h
  dsimp only at h
  split at h
  · cases h
  · rename_i hlength
    rw [List.length_take] at hlength
    omega

theorem readHeader_of_cut
    (hcut : cut <+: magic ++ lowFirst 2 version ++ body) (h : readHeader cut = .ok rest) :
    cut = magic ++ lowFirst 2 version ++ rest ∧ rest <+: body := by
  have hlength : (magic ++ lowFirst 2 version).length ≤ cut.length := by
    unfold readHeader at h
    dsimp only at h
    split at h
    · cases h
    obtain ⟨⟨n, after⟩, hnumber, -⟩ := ok_of_bind_eq_ok h
    have hcount := le_of_takeNumber hnumber
    rw [List.length_drop] at hcount
    show 6 ≤ cut.length
    omega
  obtain ⟨cut', rfl, hcut'⟩ := exists_of_prefix_append hcut hlength
  rw [readHeader_magic] at h
  cases h
  exact ⟨rfl, hcut'⟩

theorem readSection_of_cut {d found : Datum} (hd : d.Bracketed)
    (hlength : (Text.encodeUtf8 d.write).length < 2 ^ 32) (hcut : cut <+: sectionBytes d ++ body)
    (h : readSection cut = .ok (found, rest)) : cut = sectionBytes d ++ rest ∧ rest <+: body := by
  obtain ⟨⟨n, after⟩, hnumber, htext⟩ := ok_of_bind_eq_ok h
  have hcount := le_of_takeNumber hnumber
  unfold sectionBytes at hcut ⊢
  dsimp only at hcut ⊢
  rw [List.append_assoc] at hcut
  obtain ⟨cut', rfl, hcut'⟩ := exists_of_prefix_append hcut (by rwa [length_lowFirst])
  rw [takeNumber_lowFirst (by omega)] at hnumber
  obtain ⟨hn, hafter⟩ := Prod.mk.inj (Except.ok.inj hnumber)
  rw [← hn, ← hafter] at htext
  dsimp only at htext
  rcases Nat.lt_or_ge cut'.length (Text.encodeUtf8 d.write).length with hshort | hlong
  · -- less than the text is left, and all of it is read as a text
    exfalso
    have hfront : cut' <+: Text.encodeUtf8 d.write :=
      List.prefix_of_prefix_length_le hcut' (List.prefix_append _ _) (Nat.le_of_lt hshort)
    obtain ⟨cs, hcs, rfl⟩ := Text.exists_of_prefix_encodeUtf8 (Datum.keeps_write d).basic hfront
    have hne : cs ≠ d.write.toList := by
      rintro rfl
      rw [String.ofList_toList] at hshort
      exact Nat.lt_irrefl _ hshort
    obtain ⟨e, he⟩ := Datum.read_of_cut hd hcs hne
    rw [List.take_of_length_le (Nat.le_of_lt hshort), Text.decodeUtf8_encodeUtf8] at htext
    obtain ⟨text, htext, hread⟩ := ok_of_bind_eq_ok htext
    cases htext
    obtain ⟨value, hread, -⟩ := ok_of_bind_eq_ok hread
    rw [he] at hread
    cases hread
  · obtain ⟨rest', rfl, hrest⟩ := exists_of_prefix_append hcut' hlong
    obtain ⟨text, -, hread⟩ := ok_of_bind_eq_ok htext
    obtain ⟨value, -, hdone⟩ := ok_of_bind_eq_ok hread
    rw [List.drop_left] at hdone
    cases hdone
    exact ⟨(List.append_assoc _ _ _).symm, hrest⟩

end Cut

/-- A number of sections can be read from some bytes, one after the other. -/
inductive ReadsSections : Nat → List UInt8 → Prop
  | done (bytes : List UInt8) : ReadsSections 0 bytes
  | next {count : Nat} {bytes rest : List UInt8} {d : Datum}
      (h : readSection bytes = .ok (d, rest)) (hrest : ReadsSections count rest) :
      ReadsSections (count + 1) bytes

/-- A cut of some sections from which all of them are read is no cut. -/
theorem eq_of_readsSections {ds : List Datum}
    (hds : ∀ d ∈ ds, d.Bracketed ∧ (Text.encodeUtf8 d.write).length < 2 ^ 32) {cut : List UInt8}
    (hcut : cut <+: ds.flatMap sectionBytes) (h : ReadsSections ds.length cut) :
    cut = ds.flatMap sectionBytes := by
  induction ds generalizing cut with
  | nil => exact List.prefix_nil.1 hcut
  | cons d ds ih =>
    obtain ⟨hd, hds⟩ := List.forall_mem_cons.1 hds
    cases h with
    | next hread hrest =>
      obtain ⟨rfl, hcut'⟩ := readSection_of_cut hd.1 hd.2 hcut hread
      rw [ih hds hcut' hrest, List.flatMap_cons]

theorem bracketed_sections (unit : CodeUnit) : ∀ d ∈ sections unit, d.Bracketed := by
  intro d hd
  simp only [sections, List.mem_cons, List.not_mem_nil, or_false] at hd
  rcases hd with rfl | rfl | rfl | rfl
  · exact Datum.bracketed_list _
  · exact Datum.bracketed_dict _
  · exact Datum.bracketed_dict _
  · exact Datum.bracketed_list _

/-- A cut of a file from which the header and four sections are read is no cut. -/
theorem eq_of_reads {unit : CodeUnit} (hfits : fits unit = true) {cut rest : List UInt8}
    (hcut : cut <+: ofUnit unit) (hheader : readHeader cut = .ok rest)
    (hsections : ReadsSections 4 rest) : cut = ofUnit unit := by
  obtain ⟨rfl, hrest⟩ := readHeader_of_cut hcut hheader
  have hall : ∀ d ∈ sections unit, d.Bracketed ∧ (Text.encodeUtf8 d.write).length < 2 ^ 32 :=
    fun d hd => ⟨bracketed_sections unit d hd, of_decide_eq_true (List.all_eq_true.1 hfits d hd)⟩
  rw [eq_of_readsSections hall hrest hsections, ofUnit]

end CodeFile

/-! ## Machines -/

theorem ok_of_mapError {ε ε' α : Type} {x : Except ε α} {f : ε → ε'} {a : α}
    (h : x.mapError f = .ok a) : x = .ok a := by
  cases x with
  | error e => cases h
  | ok b =>
    cases h
    rfl

variable {bytes : List UInt8}

/-- A reading that takes one section, and the others from what is left. -/
theorem CodeFile.ReadsSections.first {α : Type} {k : Datum × List UInt8 → Except LoadError α}
    {count : Nat} {a : α} (h : nextSection bytes >>= k = .ok a)
    (hk : ∀ d rest, k (d, rest) = .ok a → ReadsSections count rest) :
    ReadsSections (count + 1) bytes := by
  obtain ⟨⟨d, rest⟩, hread, h⟩ := ok_of_bind_eq_ok h
  exact .next (ok_of_mapError hread) (hk d rest h)

theorem Wide.State.reads_of_load {s s' : Wide.State} (h : s.load bytes = .ok s') :
    ∃ rest, CodeFile.readHeader bytes = .ok rest ∧ CodeFile.ReadsSections 4 rest := by
  obtain ⟨rest, hheader, h⟩ := ok_of_bind_eq_ok h
  refine ⟨rest, ok_of_mapError hheader, .first h fun _ _ h => .first h fun _ _ h => ?_⟩
  obtain ⟨size, -, h⟩ := ok_of_bind_eq_ok h
  refine .first h fun _ _ h => ?_
  obtain ⟨routines, -, h⟩ := ok_of_bind_eq_ok h
  exact .first h fun _ rest _ => .done rest

theorem Fast.State.reads_of_load {s s' : Fast.State} (h : s.load bytes = .ok s') :
    ∃ rest, CodeFile.readHeader bytes = .ok rest ∧ CodeFile.ReadsSections 4 rest := by
  obtain ⟨s₁, hread, -⟩ := ok_of_bind_eq_ok h
  have h := ok_of_mapError hread
  obtain ⟨rest, hheader, h⟩ := ok_of_bind_eq_ok h
  refine ⟨rest, ok_of_mapError hheader, .first h fun _ _ h => .first h fun _ _ h => ?_⟩
  obtain ⟨size, -, h⟩ := ok_of_bind_eq_ok h
  refine .first h fun _ _ h => ?_
  obtain ⟨routines, -, h⟩ := ok_of_bind_eq_ok h
  exact .first h fun _ rest _ => .done rest

/-- Neither machine loads a file of a compiled program of which the end is missing. -/
theorem load_of_cut {program : Program} {c : Compiled} (hc : program.compile = .ok c)
    {cut : List UInt8} (hcut : cut <+: c.bytes) (hne : cut ≠ c.bytes) :
    (∀ s : Wide.State, ∃ e, s.load cut = .error e) ∧ ∀ s : Fast.State, ∃ e, s.load cut = .error e := by
  obtain ⟨hbytes, hfits, -⟩ := bytes_of_compile hc
  rw [hbytes] at hcut hne
  constructor
  · intro s
    cases hload : s.load cut with
    | error e => exact ⟨e, rfl⟩
    | ok s' =>
      obtain ⟨rest, hheader, hsections⟩ := Wide.State.reads_of_load hload
      exact absurd (CodeFile.eq_of_reads hfits hcut hheader hsections) hne
  · intro s
    cases hload : s.load cut with
    | error e => exact ⟨e, rfl⟩
    | ok s' =>
      obtain ⟨rest, hheader, hsections⟩ := Fast.State.reads_of_load hload
      exact absurd (CodeFile.eq_of_reads hfits hcut hheader hsections) hne

theorem load_of_cut_scale : ∃ c, Program.scale.compile = .ok c ∧
    c.bytes.dropLast <+: c.bytes ∧ c.bytes.dropLast ≠ c.bytes ∧
    (∀ s : Wide.State, ∃ e, s.load c.bytes.dropLast = .error e) ∧
    ∀ s : Fast.State, ∃ e, s.load c.bytes.dropLast = .error e := by
  have hcompiled : Program.scale.compile.toBool = true := by decide +kernel
  cases hcompile : Program.scale.compile with
  | error e =>
    rw [hcompile] at hcompiled
    cases hcompiled
  | ok c =>
    have hcut : c.bytes.dropLast <+: c.bytes := List.dropLast_prefix _
    have hne : c.bytes.dropLast ≠ c.bytes := by
      intro h
      have hlength := congrArg List.length h
      rw [List.length_dropLast, (bytes_of_compile hcompile).1, CodeFile.ofUnit, List.append_assoc,
        List.length_append, show CodeFile.magic.length = 4 from rfl] at hlength
      omega
    exact ⟨c, rfl, hcut, hne, load_of_cut hcompile hcut hne⟩

end StackScript
