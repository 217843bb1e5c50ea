import Mathlib.Data.List.Lex
import ComSA.Lib.Delimited
import ComSA.Lib.SortedMap
import ComSA.ComReencryptor.Reencryptor

/-!
# Reading the file with the secret attributes

Each line names a class path and its attributes. `parseImmFile` makes a map of the lines, where a later line takes the
place of an earlier one with the same class path.
-/

namespace ComSA.ComReencryptor

open SortedMap

/-- The first part between semicolons that is not empty, and what is behind it. -/
def cutAtSemicolon (strFromFile : List Char) : Option (List Char × List Char) :=
  match strFromFile.dropWhile (· = ';') with
  | [] => none
  | c :: cs => some (c :: cs.takeWhile (· ≠ ';'), (cs.dropWhile (· ≠ ';')).tail)

def commaNames (text : List Char) : List String := (tokens ',' text).map String.ofList

def tokenizeFileData (encryptedAttrData : MocAttrData) (strFromFile : List Char) : MocAttrData :=
  match cutAtSemicolon strFromFile with
  | none => encryptedAttrData
  | some (key, val) => put (commaNames key) (commaNames val) encryptedAttrData

def parseImmFile (file : String) : MocAttrData := (file.toList.splitOn '\n').foldl tokenizeFileData []

/-! ## The file line by line -/

theorem cutAtSemicolon_line {path attrs : List Char} (hpath : path ≠ []) (hsemicolon : ';' ∉ path) :
    cutAtSemicolon (path ++ ';' :: attrs) = some (path, attrs) := by
  rcases path with - | ⟨c, cs⟩
  · exact absurd rfl hpath
  · have hc : c ≠ ';' := by
      rintro rfl
      exact hsemicolon List.mem_cons_self
    have hcs : ∀ d ∈ cs, d ≠ ';' := by
      intro d hd
      exact ne_of_mem_of_not_mem (List.mem_cons_of_mem c hd) hsemicolon
    unfold cutAtSemicolon
    rw [List.cons_append, List.dropWhile_cons_of_neg (by simpa using hc)]
    dsimp only
    rw [List.takeWhile_append_of_pos (by simpa using hcs), List.dropWhile_append_of_pos (by simpa using hcs)]
    simp

theorem parseImmFile_lines {ι : Type*} (path attrs : ι → String) {es : List ι} (hpath : ∀ e ∈ es, path e ≠ "")
    (hsemicolon : ∀ e ∈ es, ';' ∉ (path e).toList)
    (hbreak : ∀ e ∈ es, '\n' ∉ (path e).toList ∧ '\n' ∉ (attrs e).toList) :
    parseImmFile (String.join (es.map fun e => path e ++ ";" ++ attrs e ++ "\n")) =
      es.foldl (fun data e => put (commaNames (path e).toList) (commaNames (attrs e).toList) data) [] := by
  have hlines : (String.join (es.map fun e => path e ++ ";" ++ attrs e ++ "\n")).toList =
      (es.map fun e => (path e).toList ++ ';' :: (attrs e).toList).flatMap fun l => l ++ ['\n'] := by
    rw [String.toList_join, List.flatMap_map, List.flatMap_map]
    simp
  have hline : ∀ l ∈ es.map fun e => (path e).toList ++ ';' :: (attrs e).toList, '\n' ∉ l := by
    intro l hl
    obtain ⟨e, he, rfl⟩ := List.mem_map.mp hl
    simpa using hbreak e he
  unfold parseImmFile
  rw [hlines, splitOn_lines hline, List.foldl_append, List.foldl_map]
  change tokenizeFileData _ [] = _
  generalize ([] : MocAttrData) = data
  induction es generalizing data with
  | nil => rfl
  | cons e es ih =>
    have hcut : tokenizeFileData data ((path e).toList ++ ';' :: (attrs e).toList) =
        put (commaNames (path e).toList) (commaNames (attrs e).toList) data := by
      unfold tokenizeFileData
      rw [cutAtSemicolon_line (by simpa using hpath e List.mem_cons_self) (hsemicolon e List.mem_cons_self)]
    rw [List.foldl_cons, List.foldl_cons, hcut]
    exact ih (fun x hx => hpath x (List.mem_cons_of_mem e hx))
      (fun x hx => hsemicolon x (List.mem_cons_of_mem e hx))
      (fun x hx => hbreak x (List.mem_cons_of_mem e hx)) (by simp_all) (by simp_all) _

theorem mem_of_mem_commaNames {text : List Char} {n : String} (h : n ∈ commaNames text) :
    ∀ c ∈ n.toList, c ∈ text := by
  obtain ⟨l, hl, rfl⟩ := List.mem_map.mp h
  intro c hc
  exact (mem_of_mem_splitOn (List.mem_filter.mp hl).1).2 c (by simpa using hc)

theorem exists_mem_commaNames {text : List Char} {c : Char} (hc : c ∈ text) (hne : c ≠ ',') :
    ∃ n ∈ commaNames text, c ∈ n.toList := by
  obtain ⟨l, hl, hcl⟩ := exists_mem_splitOn hc hne
  have htoken : l ∈ tokens ',' text := List.mem_filter.mpr ⟨hl, by simpa using List.ne_nil_of_mem hcl⟩
  exact ⟨String.ofList l, List.mem_map.mpr ⟨l, htoken, rfl⟩, by simpa using hcl⟩

theorem mem_tokenizeFileData {data : MocAttrData} {line : List Char} {e : List String × List String}
    (h : e ∈ tokenizeFileData data line) : e ∈ data ∨ ∀ n ∈ e.1 ++ e.2, ∀ c ∈ n.toList, c ∈ line := by
  unfold tokenizeFileData at h
  split at h <;> rename_i hcut
  · exact .inl h
  · rename_i key val
    rcases mem_put h with h | h
    · refine .inr ?_
      rw [h]
      unfold cutAtSemicolon at hcut
      split at hcut <;> rename_i hrest
      · cases hcut
      · rename_i c cs
        cases hcut
        have hsub : ∀ d ∈ c :: cs, d ∈ line := by
          intro d hd
          rw [← hrest] at hd
          exact (List.dropWhile_suffix _).subset hd
        intro n hn d hd
        apply hsub
        rcases List.mem_append.mp hn with hn | hn
        · rcases List.mem_cons.mp (mem_of_mem_commaNames hn d hd) with hd | hd
          · rw [hd]
            exact List.mem_cons_self
          · exact List.mem_cons_of_mem c ((List.takeWhile_prefix _).subset hd)
        · have hval := List.mem_of_mem_tail (mem_of_mem_commaNames hn d hd)
          exact List.mem_cons_of_mem c ((List.dropWhile_suffix _).subset hval)
    · exact .inl h

theorem parseImmFile_break {file : String} {key val : List String} (h : (key, val) ∈ parseImmFile file) :
    ∀ n ∈ key ++ val, '\n' ∉ n.toList := by
  have hall : ∀ e ∈ parseImmFile file, ∀ n ∈ e.1 ++ e.2, '\n' ∉ n.toList := by
    apply List.foldlRecOn (motive := fun data : MocAttrData => ∀ e ∈ data, ∀ n ∈ e.1 ++ e.2, '\n' ∉ n.toList)
    · simp
    · intro data hdata line hline e he n hn hbreak
      rcases mem_tokenizeFileData he with he | he
      · exact hdata e he n hn hbreak
      · exact (mem_of_mem_splitOn hline).1 (he n hn '\n' hbreak)
  exact hall (key, val) h

theorem commaNames_intercalate {ns : List String} (h : ∀ n ∈ ns, ',' ∉ n.toList) (hne : ∀ n ∈ ns, n ≠ "") :
    commaNames (",".intercalate ns).toList = ns := tokens_intercalate_comma h hne

end ComSA.ComReencryptor
