import HeaderAtlas.DocBlock.FileInfo
import HeaderAtlas.Proofs.DocBlock.RoundTrip

/-!
# Writing file metadata and reading it back

A first comment that is laid out as it should be gives back what was written: under each key
the lines of its value, joined by blanks, and nothing else. The reader never looks ahead. It
keeps the key it has read last, and a line belongs to that key unless it has one of its own, so
what keeps the entries apart is that no line that goes on with a value looks like a key, and
what keeps the preamble out is that none of its lines does.
-/

namespace HeaderAtlas

open Text

namespace FileInfo

open DocBlock (Line joined Prose isWords isWords_iff)

/-! ## Lines with a key -/

/-- The line starts with a key and a colon. -/
def HasKey (line : Line) : Prop :=
  ∃ key value, line = key ++ ':' :: value ∧ key ≠ [] ∧ ∀ c ∈ key, isKeyChar c = true

section Keys

variable {line key : Line}

theorem keyed?_of_key (hne : key ≠ []) (hkey : ∀ c ∈ key, isKeyChar c = true) (value : Line) :
    keyed? (key ++ ':' :: value) = some (key, trimStart value) := by
  have hcolon : ¬ isKeyChar ':' = true := by decide
  have htake : (key ++ ':' :: value).takeWhile isKeyChar = key := by
    rw [List.takeWhile_append_of_pos hkey, List.takeWhile_cons_of_neg hcolon, List.append_nil]
  have hdrop : (key ++ ':' :: value).dropWhile isKeyChar = ':' :: value := by
    rw [List.dropWhile_append_of_pos hkey, List.dropWhile_cons_of_neg hcolon]
  rw [keyed?, htake, hdrop]
  cases key with
  | nil => exact absurd rfl hne
  | cons c cs => rfl

theorem isSome_keyed?_iff : (keyed? line).isSome = true ↔ HasKey line := by
  refine ⟨fun h => ?_, fun ⟨key, value, hline, hne, hkey⟩ => ?_⟩
  · rw [keyed?] at h
    split at h
    · cases h
    · next value hvalue hne =>
      refine ⟨line.takeWhile isKeyChar, value, ?_, hne, List.all_eq_true.mp List.all_takeWhile⟩
      rw [← hvalue, List.takeWhile_append_dropWhile]
    · cases h
  · rw [hline, keyed?_of_key hne hkey]
    rfl

instance : DecidablePred HasKey := fun _ => decidable_of_iff _ isSome_keyed?_iff

theorem keyed?_eq_none (h : ¬ HasKey line) : keyed? line = none := by
  rwa [← isSome_keyed?_iff, Bool.not_eq_true, Option.isSome_eq_false_iff, Option.isNone_iff_eq_none]
    at h

end Keys

/-! ## Written metadata -/

/-- A key, and the lines of its value. -/
structure WrittenEntry where
  key : String
  value : Prose

namespace WrittenEntry

def lines (e : WrittenEntry) : List Line :=
  (" * ".toList ++ (e.key.toList ++ ':' :: ' ' :: e.value.first))
    :: e.value.more.map (" * ".toList ++ ·)

/-- What the comment says of the file in this entry. -/
def binding (e : WrittenEntry) : String × String := (e.key, e.value.text)

/-- The entry can be told from the lines around it. -/
structure Legible (e : WrittenEntry) : Prop where
  named : e.key.toList ≠ []
  key : ∀ c ∈ e.key.toList, isKeyChar c = true
  words : ∀ l ∈ e.value.lines, isWords l = true
  goesOn : ∀ l ∈ e.value.more, ¬ HasKey l

end WrittenEntry

/-- The comment with these lines before the first key. -/
def written (preamble : List Line) (entries : List WrittenEntry) : String :=
  String.ofList (joined '\n' (preamble ++ entries.flatMap (·.lines)))

/-- The comment can be told apart from its layout. -/
structure Legible (preamble : List Line) (entries : List WrittenEntry) : Prop where
  before : ∀ l ∈ preamble, '\n' ∉ l ∧ ¬ HasKey (lineText l)
  legible : ∀ e ∈ entries, e.Legible
  distinct : (entries.map (·.key)).Nodup

/-! ## Reading what was written -/

/-- What is written after the asterisk is what stands on the line. -/
theorem lineText_star {text : Line} (h : opens text = true) :
    lineText (" * ".toList ++ text) = text :=
  trimStart_of_opens h

/-- Letters and digits lie between `0` and `z`. -/
theorem toNat_of_isAlphanum {c : Char} (h : c.isAlphanum = true) :
    '0'.toNat ≤ c.toNat ∧ c.toNat ≤ 'z'.toNat := by
  have hclass : (c.isUpper = true ∨ c.isLower = true) ∨ c.isDigit = true := by
    rw [← Bool.or_eq_true, ← Bool.or_eq_true]
    exact h
  have hrange : '0' ≤ c ∧ c ≤ 'z' := by
    rcases hclass with (hupper | hlower) | hdigit
    · obtain ⟨hA, hZ⟩ : 'A' ≤ c ∧ c ≤ 'Z' := of_decide_eq_true hupper
      exact ⟨Char.le_trans (by decide) hA, Char.le_trans hZ (by decide)⟩
    · obtain ⟨ha, hz⟩ := Bool.and_eq_true_iff.mp hlower
      exact ⟨Char.le_trans (by decide) (of_decide_eq_true ha), of_decide_eq_true hz⟩
    · obtain ⟨h0, h9⟩ := Bool.and_eq_true_iff.mp hdigit
      exact ⟨of_decide_eq_true h0, Char.le_trans (of_decide_eq_true h9) (by decide)⟩
  exact hrange.imp UInt32.le_iff_toNat_le.mp UInt32.le_iff_toNat_le.mp

/-- No character of a key is blank. -/
theorem isBlank_of_isKeyChar {c : Char} (h : isKeyChar c = true) : isBlank c = false := by
  rw [isKeyChar, Bool.or_eq_true, Bool.or_eq_true, beq_iff_eq, beq_iff_eq] at h
  rcases h with (rfl | rfl) | h
  · decide
  · decide
  · have hrange : 0x30 ≤ c.toNat ∧ c.toNat ≤ 0x7A := toNat_of_isAlphanum h
    simp only [isBlank, Bool.or_eq_false_iff, Bool.and_eq_false_iff, decide_eq_false_iff_not,
      beq_eq_false_iff_ne]
    omega

section Reading

variable {p : Progress} {e : WrittenEntry} {key : String} {value text : Line}

/-- The next line of the value of `key`. -/
theorem step_continuation (hwords : isWords text = true) (hkey : ¬ HasKey text)
    (info : NameMap String) :
    step ⟨some key, info.insert key (String.ofList value)⟩ (" * ".toList ++ text)
      = ⟨some key, info.insert key (String.ofList (value ++ ' ' :: text))⟩ := by
  have hjoin : String.ofList value ++ " " ++ String.ofList text
      = String.ofList (value ++ ' ' :: text) := String.toList_inj.mp (by simp)
  simp only [step, lineText_star (isWords_iff.mp hwords).1, keyed?_eq_none hkey, append,
    NameMap.get?_insert_self, NameMap.insert_insert, hjoin]

theorem foldl_step_continuations {more : List Line} (hwords : ∀ l ∈ more, isWords l = true)
    (hkey : ∀ l ∈ more, ¬ HasKey l) (info : NameMap String) :
    (more.map (" * ".toList ++ ·)).foldl step ⟨some key, info.insert key (String.ofList value)⟩
      = ⟨some key, info.insert key (String.ofList (joined ' ' (value :: more)))⟩ := by
  induction more generalizing value with
  | nil => rw [DocBlock.joined_singleton]; rfl
  | cons l more ih =>
    obtain ⟨hl, hwords⟩ := List.forall_mem_cons.mp hwords
    obtain ⟨hl', hkey⟩ := List.forall_mem_cons.mp hkey
    rw [List.map_cons, List.foldl_cons, step_continuation hl hl', ih hwords hkey]
    cases more with
    | nil => rw [DocBlock.joined_singleton, DocBlock.joined_cons_cons, DocBlock.joined_singleton]
    | cons m more =>
      simp only [DocBlock.joined_cons_cons, List.append_assoc, List.cons_append]

/-- The first line of an entry with a new key. -/
theorem step_first (h : e.Legible) (hnew : p.info.get? e.key = none) :
    step p (" * ".toList ++ (e.key.toList ++ ':' :: ' ' :: e.value.first))
      = ⟨some e.key, p.info.insert e.key (String.ofList e.value.first)⟩ := by
  have hopens : opens (e.key.toList ++ ':' :: ' ' :: e.value.first) = true := by
    obtain ⟨c, cs, hkey⟩ := List.exists_cons_of_ne_nil h.named
    have hc := h.key c (hkey ▸ List.mem_cons_self)
    exact opens_iff.mpr ⟨c, by rw [hkey]; rfl, isBlank_of_isKeyChar hc⟩
  have hfirst : trimStart (' ' :: e.value.first) = e.value.first :=
    trimStart_of_opens (isWords_iff.mp (h.words _ List.mem_cons_self)).1
  simp only [step, lineText_star hopens, keyed?_of_key h.named h.key, hfirst, append,
    String.ofList_toList, hnew]

/-- An entry with a new key gives the file what is written in it. -/
theorem foldl_step_entry (h : e.Legible) (hnew : p.info.get? e.key = none) :
    e.lines.foldl step p = ⟨some e.key, p.info.insert e.key e.value.text⟩ := by
  obtain ⟨-, hmore⟩ := List.forall_mem_cons.mp h.words
  rw [WrittenEntry.lines, List.foldl_cons, step_first h hnew,
    foldl_step_continuations hmore h.goesOn]
  rfl

/-- Entries with keys of their own are added one by one. -/
theorem info_foldl_step_entries {entries : List WrittenEntry} (h : ∀ e ∈ entries, e.Legible)
    (hdistinct : (entries.map (·.key)).Nodup) (hnew : ∀ e ∈ entries, p.info.get? e.key = none) :
    ((entries.flatMap (·.lines)).foldl step p).info
      = (entries.map (·.binding)).foldl (fun m (k, v) => m.insert k v) p.info := by
  induction entries generalizing p with
  | nil => rfl
  | cons e es ih =>
    obtain ⟨he, hes⟩ := List.forall_mem_cons.mp h
    obtain ⟨hfresh, hes'⟩ := List.forall_mem_cons.mp hnew
    rw [List.map_cons, List.nodup_cons] at hdistinct
    obtain ⟨hkey, hdistinct⟩ := hdistinct
    rw [List.flatMap_cons, List.foldl_append, foldl_step_entry he hfresh, List.map_cons,
      List.foldl_cons]
    refine ih hes hdistinct fun d hd => ?_
    have hne : e.key ≠ d.key := fun heq => hkey (heq ▸ List.mem_map_of_mem hd)
    rw [NameMap.get?_insert, if_neg hne]
    exact hes' d hd

/-- Lines before the first key leave no trace. -/
theorem foldl_step_preamble {preamble : List Line} (h : ∀ l ∈ preamble, ¬ HasKey (lineText l)) :
    preamble.foldl step {} = {} := by
  induction preamble with
  | nil => rfl
  | cons l ls ih =>
    obtain ⟨hl, hls⟩ := List.forall_mem_cons.mp h
    rw [List.foldl_cons, step, keyed?_eq_none hl]
    exact ih hls

end Reading

/-- The lines of an entry are on lines of their own. -/
theorem WrittenEntry.Legible.not_mem_lines {e : WrittenEntry} (h : e.Legible) :
    ∀ l ∈ e.lines, '\n' ∉ l := by
  have hkey : '\n' ∉ e.key.toList := fun hmem => by
    have hblank := isBlank_of_isKeyChar (h.key _ hmem)
    revert hblank
    decide
  have hwords : ∀ l ∈ e.value.lines, '\n' ∉ l := fun l hl => (isWords_iff.mp (h.words l hl)).2.2
  obtain ⟨hfirst, hmore⟩ := List.forall_mem_cons.mp hwords
  refine List.forall_mem_cons.mpr ⟨?_, List.forall_mem_map.mpr fun l hl => ?_⟩
  · simp [hkey, hfirst]
  · simp [hmore l hl]

/-- What is read line by line is what is written. A comment without lines has an empty one. -/
theorem foldl_step_written {preamble : List Line} {entries : List WrittenEntry}
    (h : Legible preamble entries) :
    (lines (written preamble entries).toList).foldl step {}
      = (preamble ++ entries.flatMap (·.lines)).foldl step {} := by
  have hbreaks : ∀ l ∈ preamble ++ entries.flatMap (·.lines), '\n' ∉ l := by
    refine List.forall_mem_append.mpr ⟨fun l hl => (h.before l hl).1, fun l hl => ?_⟩
    obtain ⟨e, he, hmem⟩ := List.mem_flatMap.mp hl
    exact (h.legible e he).not_mem_lines l hmem
  rw [written, String.toList_ofList]
  by_cases hne : preamble ++ entries.flatMap (·.lines) = []
  · rw [hne]
    rfl
  · rw [DocBlock.lines_joined hne hbreaks]

/-- **Metadata is read back as it was written.** Whatever stands before the first key, the
metadata of the comment are the keys, each with its lines joined by blanks. -/
theorem ofComment_written {preamble : List Line} {entries : List WrittenEntry}
    (h : Legible preamble entries) :
    ofComment (written preamble entries) = NameMap.ofList (entries.map (·.binding)) := by
  have htrim : (entries.map (·.binding)).map (fun (k, v) => (k, String.ofList (trim v.toList)))
      = entries.map (·.binding) := by
    rw [List.map_map]
    refine List.map_congr_left fun e he => ?_
    have htext := Prose.trim_text (h.legible e he).words 0
    rw [List.replicate_zero, List.append_nil] at htext
    dsimp only [Function.comp_apply, WrittenEntry.binding, Prose.text]
    rw [String.toList_ofList, htext]
  have hread : ((lines (written preamble entries).toList).foldl step {}).info
      = NameMap.ofList (entries.map (·.binding)) := by
    rw [foldl_step_written h, List.foldl_append,
      foldl_step_preamble fun l hl => (h.before l hl).2,
      info_foldl_step_entries h.legible h.distinct fun _ _ => NameMap.get?_empty _]
    rfl
  rw [ofComment, hread, NameMap.ofList, NameMap.map_foldl_insert, htrim]
  rfl

/-- The lines before the first key: a file name, a line that is empty but for its asterisk, and
one with a colon that follows no key. -/
def titleLines : List Line := ["".toList, " * libvirt-domain.h".toList, " *".toList,
  "** A note: none of this counts".toList]

/-- A summary on one line and a description on three, of which one has a colon. -/
def domainEntries : List WrittenEntry :=
  [⟨"Summary", "APIs for management of domains".toList, []⟩,
   ⟨"Description.long", "Provides APIs for".toList,
     ["the management: of domains".toList, "* and more".toList]⟩]

theorem ofComment_of_domainEntries :
    written titleLines domainEntries
      = "\n * libvirt-domain.h\n *\n** A note: none of this counts\n"
        ++ " * Summary: APIs for management of domains\n"
        ++ " * Description.long: Provides APIs for\n * the management: of domains\n * * and more"
    ∧ (ofComment (written titleLines domainEntries)).entries
      = [("Description.long", "Provides APIs for the management: of domains * and more"),
         ("Summary", "APIs for management of domains")] := by
  have hentries : ∀ e ∈ domainEntries, e.Legible := by
    simp only [domainEntries, List.forall_mem_cons]
    exact ⟨⟨by decide, List.all_eq_true.mp (by decide), by decide, by decide⟩,
      ⟨by decide, List.all_eq_true.mp (by decide), by decide, by decide⟩, nofun⟩
  have hlegible : Legible titleLines domainEntries := ⟨by decide +kernel, hentries, by decide⟩
  refine ⟨by decide +kernel, ?_⟩
  exact (congrArg NameMap.entries (ofComment_written hlegible)).trans (by decide +kernel)

end FileInfo

end HeaderAtlas
