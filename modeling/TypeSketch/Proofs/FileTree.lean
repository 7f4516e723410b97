import TypeSketch.FileTree
import TypeSketch.Proofs.Run

/-! Runs in a working directory with files below it. Where a path leads is settled by the places of the files alone, whatever
is in them. So a run reads its standard input under a dash and under a path that leads to it, and under no other; and a file
below the working directory is read under its names. -/
namespace TypeSketch

namespace FileTree
variable {files : List (List String × List UInt8)} {path : String}

/-- Names lead to the same place in trees that have their files and directories at the same places. -/
theorem follow_congr {tree other : FileTree} (hplaces : tree.places = other.places)
    (hdirectories : tree.directories = other.directories) (place names : List String) :
    tree.follow place names = other.follow place names := by
  have hdirectory (place : List String) : tree.isDirectory place = other.isDirectory place := by
    rw [isDirectory, isDirectory, hplaces, hdirectories]
  induction names generalizing place with
  | nil => rfl
  | cons name rest ih => simp only [follow, ih, hplaces, hdirectory]

private theorem places_ofFiles (input other : Stream) (files : List (List String × List UInt8)) :
    (ofFiles input files).places = (ofFiles other files).places := by
  simp [places, ofFiles, systemFiles]

/-- What is in the standard input has no part in where a path leads. -/
theorem locate_ofFiles (input other : Stream) (files : List (List String × List UInt8)) (path : String) :
    (ofFiles input files).locate path = (ofFiles other files).locate path := by
  have hfollow := @follow_congr (ofFiles input files) (ofFiles other files) (places_ofFiles input other files) rfl
  rw [locate, locate]
  simp only [hfollow]
  rfl

def LeadsToInput (files : List (List String × List UInt8)) (path : String) : Prop :=
  ∃ place ∈ inputPlaces, (ofFiles [] files).locate path = .ok place

private theorem lookup_filesBelow {place : List String} (h : ¬ workingDirectory <+: place)
    (files : List (List String × List UInt8)) : (filesBelow files).lookup place = none := by
  refine List.lookup_eq_none_iff.2 (List.forall_mem_map.2 fun file _ => bne_iff_ne.2 ?_)
  rintro rfl
  exact h (List.prefix_append _ _)

private theorem contents_of_mem {place : List String} (h : place ∈ inputPlaces) (input : Stream)
    (files : List (List String × List UInt8)) : (ofFiles input files).contents place = input := by
  have hbelow : ∀ place ∈ inputPlaces, ¬ workingDirectory <+: place := by decide
  have hsystem : (systemFiles input).lookup place = some input := by
    simp only [inputPlaces, List.mem_cons, List.not_mem_nil, or_false] at h
    rcases h with rfl | rfl | rfl <;> rfl
  rw [contents, ofFiles, List.lookup_append, lookup_filesBelow (hbelow place h), hsystem]
  rfl

private theorem contents_of_notMem {place : List String} (h : place ∉ inputPlaces) (input other : Stream)
    (files : List (List String × List UInt8)) :
    (ofFiles input files).contents place = (ofFiles other files).contents place := by
  have hinput (input : Stream) : (inputPlaces.map (·, input)).lookup place = none := by
    refine List.lookup_eq_none_iff.2 (List.forall_mem_map.2 fun other ho => bne_iff_ne.2 ?_)
    rintro rfl
    exact h ho
  simp only [contents, ofFiles, systemFiles, List.lookup_append, List.lookup_cons, hinput]

/-- A path that leads to the standard input opens it. -/
theorem openPath_of_leads (h : LeadsToInput files path) (input : Stream) :
    (ofFiles input files).openPath path = .ok input := by
  obtain ⟨place, hp, hl⟩ := h
  rw [openPath, locate_ofFiles input [], hl]
  exact congrArg Except.ok (contents_of_mem hp input files)

/-- What is opened under a path that does not lead to the standard input has nothing to do with it. -/
theorem openPath_of_not_leads (h : ¬ LeadsToInput files path) (input other : Stream) :
    (ofFiles input files).openPath path = (ofFiles other files).openPath path := by
  rw [openPath, openPath, locate_ofFiles input [], locate_ofFiles other []]
  cases hl : (ofFiles [] files).locate path with
  | error error => rfl
  | ok place =>
    have hp : place ∉ inputPlaces := fun hp => h ⟨place, hp, hl⟩
    exact congrArg Except.ok (contents_of_notMem hp input other files)

/-- Dots and further slashes in a path leave it where it leads. -/
example : LeadsToInput [] "../..//dev/./stdin" := ⟨["dev", "stdin"], by decide, by rfl⟩

def IsName (name : String) : Prop := name ∉ ["", ".", ".."] ∧ name.utf8ByteSize ≤ longestName
  deriving Decidable

/-- Files that can be below one directory: none is where there is the directory of another one. -/
structure Laid (files : List (List String × List UInt8)) : Prop where
  nonempty : ∀ file ∈ files, file.1 ≠ []
  areNames : ∀ file ∈ files, ∀ name ∈ file.1, IsName name
  apart : ∀ file ∈ files, ∀ other ∈ files, file.1 <+: other.1 → file = other

example : Laid [(["a"], []), (["b", "a"], []), (["b", "c"], [])] := ⟨by decide, by decide, by decide⟩

private theorem mem_places_iff (input : Stream) (files : List (List String × List UInt8)) (names : List String) :
    workingDirectory ++ names ∈ (ofFiles input files).places ↔ ∃ file ∈ files, file.1 = names := by
  simp [places, ofFiles, filesBelow, systemFiles, inputPlaces, workingDirectory]

namespace Laid
variable (laid : Laid files) {file : List String × List UInt8} (hf : file ∈ files) (input : Stream)
include laid hf

private theorem notMem_places {front rest : List String} (hn : file.1 = front ++ rest) (hr : rest ≠ []) :
    workingDirectory ++ front ∉ (ofFiles input files).places := by
  rw [mem_places_iff]
  rintro ⟨other, ho, rfl⟩
  have hsame := laid.apart other ho file hf ⟨rest, hn.symm⟩
  rw [hsame, List.self_eq_append_right] at hn
  exact hr hn

private theorem isDirectory_front {front rest : List String} (hn : file.1 = front ++ rest) (hr : rest ≠ []) :
    (ofFiles input files).isDirectory (workingDirectory ++ front) := by
  have hplaced := (mem_places_iff input files file.1).2 ⟨file, hf, rfl⟩
  have hbelow : workingDirectory ++ front <+: workingDirectory ++ file.1 :=
    (List.prefix_append_right_inj _).2 ⟨rest, hn.symm⟩
  have hother : workingDirectory ++ front ≠ workingDirectory ++ file.1 := by
    intro he
    exact laid.notMem_places hf input hn hr (he ▸ hplaced)
  rw [isDirectory, Bool.or_eq_true, List.any_eq_true, List.any_eq_true]
  exact .inr ⟨_, hplaced, Bool.and_eq_true_iff.2 ⟨List.isPrefixOf_iff_prefix.2 hbelow, decide_eq_true hother⟩⟩

/-- The names of a file lead to it, one directory after the other. -/
theorem follow_eq {front back : List String} (hn : file.1 = front ++ back) (hb : back ≠ []) :
    (ofFiles input files).follow (workingDirectory ++ front) back = .ok (workingDirectory ++ file.1) := by
  induction back generalizing front with
  | nil => exact absurd rfl hb
  | cons name rest ih =>
    obtain ⟨hname, hlength⟩ := laid.areNames file hf name (by simp [hn])
    simp only [List.mem_cons, List.not_mem_nil, or_false, not_or] at hname
    obtain ⟨hempty, hdot, hdots⟩ := hname
    rw [List.append_cons] at hn
    rw [follow, if_neg (not_or.2 ⟨hempty, hdot⟩), if_neg hdots, if_neg (Nat.not_lt.2 hlength), List.append_assoc]
    by_cases hr : rest = []
    · rw [hr, List.append_nil] at hn
      rw [if_pos ((mem_places_iff input files _).2 ⟨file, hf, hn⟩), hr, hn]
      rfl
    · rw [if_neg (laid.notMem_places hf input hn hr), if_pos (laid.isDirectory_front hf input hn hr)]
      exact ih hn hr

private theorem lookup_eq : (filesBelow files).lookup (workingDirectory ++ file.1) = some [.bytes file.2] := by
  cases hl : (filesBelow files).lookup (workingDirectory ++ file.1) with
  | none =>
    have hne := List.lookup_eq_none_iff.1 hl _ (List.mem_map_of_mem hf)
    rw [bne_self_eq_false] at hne
    cases hne
  | some stream =>
    obtain ⟨front, back, hsplit, -⟩ := List.lookup_eq_some_iff.1 hl
    have hmem : (workingDirectory ++ file.1, stream) ∈ filesBelow files := by
      rw [hsplit]
      exact List.mem_append_right _ List.mem_cons_self
    obtain ⟨other, ho, he⟩ := List.mem_map.1 hmem
    rw [Prod.mk.injEq, List.append_cancel_left_eq] at he
    obtain rfl := laid.apart other ho file hf ⟨[], by rw [List.append_nil, he.1]⟩
    rw [← he.2]

private theorem contents_eq : (ofFiles input files).contents (workingDirectory ++ file.1) = [.bytes file.2] := by
  rw [contents, ofFiles, List.lookup_append, laid.lookup_eq hf]
  rfl

/-- A path that is cut into the names of a file leads to it, if it is not too long. -/
theorem openPath_eq (hn : names path = file.1) (short : path.utf8ByteSize ≤ longestPath) :
    (ofFiles input files).openPath path = .ok [.bytes file.2] := by
  have hpath : ¬ path.isEmpty := by
    intro he
    have hempty : path = "" := by simpa using he
    rw [hempty] at hn
    have hname := (laid.areNames file hf "" (by rw [← hn]; decide)).1
    exact hname List.mem_cons_self
  have hlocate : (ofFiles input files).locate path = .ok (workingDirectory ++ file.1) := by
    rw [locate, if_neg hpath, if_neg (Nat.not_lt.2 short), hn]
    split
    · rename_i rest hfirst
      have hname := (laid.areNames file hf "" (by rw [hfirst]; exact List.mem_cons_self)).1
      exact absurd List.mem_cons_self hname
    · have hfollow := laid.follow_eq hf input (List.nil_append file.1).symm (laid.nonempty file hf)
      rwa [List.append_nil] at hfollow
  rw [openPath, hlocate]
  exact congrArg Except.ok (laid.contents_eq hf input)

end Laid

end FileTree

section
open FileTree
variable {files : List (List String × List UInt8)} {arguments : List String} {options : Options}

/-- A run in the working directory. Its input is the standard input, if it is asked for by a dash or by a path that leads
there; and otherwise the standard input has no part in what it leaves. -/
theorem run_ofFiles_standardInput (accepted : CommandLine.parse arguments = .ok options) (logging : Option String)
    (input : Stream) (files : List (List String × List UInt8)) :
    (options.input = "-" ∨ LeadsToInput files options.input →
      (Environment.ofFiles logging input files).Opens options.input input) ∧
    (¬ (options.input = "-" ∨ LeadsToInput files options.input) → ∀ other,
      run (Environment.ofFiles logging other files) arguments = run (Environment.ofFiles logging input files) arguments) := by
  constructor
  · intro h
    by_cases hn : options.input = "-"
    · rw [hn]
      exact .standardInput
    · exact .file hn (openPath_of_leads (h.resolve_left hn) input)
  · intro h other
    obtain ⟨hn, hl⟩ := not_or.1 h
    have hopen : Run.openInput (Environment.ofFiles logging other files) options.input =
        Run.openInput (Environment.ofFiles logging input files) options.input := by
      rw [Run.openInput, Run.openInput, if_neg hn, if_neg hn]
      exact congrArg (Except.mapError _) (openPath_of_not_leads hl other input)
    have hread : Run.readInput (Environment.ofFiles logging other files) options.input =
        Run.readInput (Environment.ofFiles logging input files) options.input := by
      rw [Run.readInput, Run.readInput, hopen]
    simp only [run, accepted, hread]
    rfl

/-- A run on a file below the working directory reports on what is in the file. -/
theorem run_ofFiles_file (accepted : CommandLine.parse arguments = .ok options) (named : options.input ≠ "-")
    (laid : Laid files) {file : List String × List UInt8} (hf : file ∈ files) (hn : names options.input = file.1)
    (short : options.input.utf8ByteSize ≤ longestPath) (logging : Option String) (input : Stream) :
    run (Environment.ofFiles logging input files) arguments =
      Run.reported options (LogFilter.ofSetting logging) (Example.ofText file.2) := by
  have hopen : (Environment.ofFiles logging input files).Opens options.input [.bytes file.2] :=
    .file named (laid.openPath_eq hf input hn short)
  exact run_of_gives accepted ⟨_, hopen, ends_single file.2⟩

end

end TypeSketch
