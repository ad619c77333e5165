import CoroutineRpc.Library.Search
import CoroutineRpc.Text
import Std.Data.ExtTreeMap

/-! `StringUtil`: strings cut at a separator.

`SplitStrToVector` searches from a moving index and keeps the items that are not empty;
`splitStrToVector_eq` says that these are the pieces of the leftmost cutting. A map keeps
what the last item with a name gives it (`foldl_assignItem`). -/
namespace CoroutineRpc.Comm
open Library.Search

instance transCmp_bytes : Std.TransCmp (compare : Bytes → Bytes → Ordering) := List.instTransOrd

instance lawfulEqCmp_bytes : Std.LawfulEqCmp (compare : Bytes → Bytes → Ordering) := List.instLawfulEqOrd

/-- `std::map<std::string, std::string>`: in the order of the bytes. -/
abbrev StringMap := Std.ExtTreeMap Bytes Bytes compare

namespace StringUtil

def emplaceBack (result : List Bytes) (item : Bytes) : List Bytes :=
  if item = [] then result else result ++ [item]

/-- The loop of `SplitStrToVector` from `begin`; `length` is `end - begin`. -/
def splitLoop (str separator : Bytes) (begin : Nat) (result : List Bytes) : List Bytes :=
  if _ : begin ≤ str.length ∧ separator ≠ [] then
    match _ : find separator (str.drop begin) with
    | none => emplaceBack result (str.drop begin)
    | some length =>
      splitLoop str separator (begin + length + separator.length)
        (emplaceBack result ((str.drop begin).take length))
  else result
termination_by str.length + 1 - begin
decreasing_by
  have hle := find_le ‹find separator (str.drop begin) = some length›
  have hpos := List.length_pos_iff.mpr (‹begin ≤ str.length ∧ separator ≠ []›).2
  rw [List.length_drop] at hle
  omega

def splitStrToVector (str separator : Bytes) (result : List Bytes) : List Bytes :=
  if str = [] ∨ separator = [] then result else splitLoop str separator 0 result

/-- The body of the loop of `SplitStrToMap`. -/
def assignItem (joiner : Bytes) (result : StringMap) (item : Bytes) : StringMap :=
  match find joiner item with
  | none | some 0 => result
  | some position => result.insert (item.take position) (item.drop (position + joiner.length))

def splitStrToMap (str separator joiner : Bytes) (result : StringMap) : StringMap :=
  if str = [] ∨ separator = [] ∨ joiner = [] then result
  else (splitStrToVector str separator []).foldl (assignItem joiner) result

/-! ### What the vector holds -/

theorem emplaceBack_eq (result : List Bytes) (item : Bytes) :
    emplaceBack result item = result ++ [item].filter (· ≠ []) := by
  by_cases h : item = []
  · simp [emplaceBack, h]
  · simp [emplaceBack, h]

theorem splitLoop_eq {str separator : Bytes} (hsep : separator ≠ []) {begin : Nat}
    (hbegin : begin ≤ str.length) (result : List Bytes) : splitLoop str separator begin result =
      result ++ (pieces separator (str.drop begin)).filter (· ≠ []) := by
  induction hn : str.length + 1 - begin using Nat.strong_induction_on generalizing begin result with
  | _ n ih =>
    rw [splitLoop, dif_pos ⟨hbegin, hsep⟩]
    split
    · rename_i hf
      rw [pieces_none hf, emplaceBack_eq]
    · rename_i length hf
      have hroom := find_le hf
      have hpos := List.length_pos_iff.mpr hsep
      rw [List.length_drop] at hroom
      rw [ih _ (by omega) (by omega) _ rfl, pieces_some hsep hf, emplaceBack_eq, List.append_assoc,
        ← List.filter_append, List.drop_drop, List.singleton_append, Nat.add_assoc]

/-- **The items are the pieces that are not empty.** -/
theorem splitStrToVector_eq (str : Bytes) {separator : Bytes} (hsep : separator ≠ [])
    (result : List Bytes) : splitStrToVector str separator result =
      result ++ (pieces separator str).filter (· ≠ []) := by
  by_cases hstr : str = []
  · subst hstr
    have hnone : find separator [] = none := if_neg hsep
    rw [splitStrToVector, if_pos (.inl rfl), pieces_none hnone]
    simp
  · rw [splitStrToVector, if_neg (not_or.mpr ⟨hstr, hsep⟩), splitLoop_eq hsep (Nat.zero_le _),
      List.drop_zero]

/-! ### What the map holds -/

theorem assignItem_lookup {joiner : Bytes} (hjoiner : joiner ≠ []) (result : StringMap)
    (item key value : Bytes) : (assignItem joiner result item)[key]? = some value ↔
      key ≠ [] ∧ FirstCut joiner item key value ∨
        (∀ value', ¬ (key ≠ [] ∧ FirstCut joiner item key value')) ∧ result[key]? = some value := by
  unfold assignItem
  split
  · rename_i hf
    simp [not_firstCut hf]
  · rename_i hf
    have hempty : ∀ value', ¬ (key ≠ [] ∧ FirstCut joiner item key value') := fun value' h =>
      h.1 (by rw [(h.2.unique (firstCut_of_find hf)).1, List.take_zero])
    simp only [not_false_eq_true, hempty, false_or, implies_true, true_and]
  · rename_i position hzero hf
    have hcut := firstCut_of_find hf
    have hname : item.take position ≠ [] := by
      have hroom := find_le hf
      have hpos := List.length_pos_iff.mpr hjoiner
      have hposition : position ≠ 0 := hzero
      exact List.ne_nil_of_length_pos (by rw [List.length_take]; omega)
    simp only [Std.ExtTreeMap.getElem?_insert, Std.LawfulEqCmp.compare_eq_iff_eq]
    split
    · rename_i hkey
      subst hkey
      have hvalue : ∀ value', FirstCut joiner item (item.take position) value' ↔
          item.drop (position + joiner.length) = value' := fun value' =>
        ⟨fun h => (hcut.unique h).2, fun h => h ▸ hcut⟩
      simp [hname, hvalue]
    · rename_i hkey
      have hother : ∀ value', ¬ (key ≠ [] ∧ FirstCut joiner item key value') := fun value' h =>
        hkey (hcut.unique h.2).1
      simp only [not_false_eq_true, hother, false_or, implies_true, true_and]

/-- **The last item with a name gives its value.** -/
theorem foldl_assignItem {joiner : Bytes} (hjoiner : joiner ≠ []) (items : List Bytes) (key value : Bytes) :
    (items.foldl (assignItem joiner) ∅)[key]? = some value ↔
      LastGives (fun item value => key ≠ [] ∧ FirstCut joiner item key value) items value := by
  induction items using List.reverseRecOn generalizing value with
  | nil => simp
  | append_singleton items item ih =>
    rw [List.foldl_append, List.foldl_cons, List.foldl_nil, assignItem_lookup hjoiner, lastGives_concat, ih]

theorem splitStrToMap_eq (str : Bytes) {separator joiner : Bytes} (hsep : separator ≠ [])
    (hjoiner : joiner ≠ []) (key value : Bytes) :
    (splitStrToMap str separator joiner ∅)[key]? = some value ↔
      LastGives (fun item value => key ≠ [] ∧ FirstCut joiner item key value) (pieces separator str) value := by
  have hitems : splitStrToMap str separator joiner ∅ =
      (splitStrToVector str separator []).foldl (assignItem joiner) ∅ := by
    unfold splitStrToMap
    split
    · rename_i h
      have hstr : str = [] := by
        rcases h with h | h | h
        · exact h
        · exact absurd h hsep
        · exact absurd h hjoiner
      rw [hstr, splitStrToVector, if_pos (.inl rfl), List.foldl_nil]
    · rfl
  rw [hitems, splitStrToVector_eq str hsep, List.nil_append, foldl_assignItem hjoiner]
  refine lastGives_filter fun item hitem value' h => ?_
  have hnil : item = [] := by simpa using hitem
  have hwhole := h.2.whole
  rw [hnil] at hwhole
  exact h.1 (List.append_eq_nil_iff.mp hwhole.symm).1

/-- **Splitting loses nothing.** The items are the pieces that are not empty of the one cutting
from the left, and the map has of each name what the last piece with it gives. -/
theorem split_lossless (str separator : Bytes) (hsep : separator ≠ []) :
    ∃ cutting : List Bytes, Cutting separator str cutting ∧
      (∀ other, Cutting separator str other → other = cutting) ∧
      separator.intercalate cutting = str ∧ (∀ piece ∈ cutting, ¬ separator <:+: piece) ∧
      (∀ result, splitStrToVector str separator result = result ++ cutting.filter (· ≠ [])) ∧
      ∀ joiner, joiner ≠ [] → ∀ key value,
        (splitStrToMap str separator joiner ∅)[key]? = some value ↔
          LastGives (fun piece value => key ≠ [] ∧ FirstCut joiner piece key value) cutting value :=
  ⟨pieces separator str, cutting_pieces hsep, fun _ hother => (cutting_iff hsep).mp hother,
    intercalate_pieces hsep, fun _ hpiece => not_infix_of_mem_pieces hsep hpiece,
    splitStrToVector_eq str hsep, fun _ hjoiner => splitStrToMap_eq str hsep hjoiner⟩

/-- A separator that overlaps itself, and a joiner twice in a piece. -/
theorem split_lossless_instance : (ascii "aa") ≠ [] ∧ splitStrToVector (ascii "k==aaav=") (ascii "aa") [] =
    [ascii "k==", ascii "av="] := by
  obtain ⟨cutting, hcutting, hall, -, -, hvector, -⟩ :=
    split_lossless (ascii "k==aaav=") (ascii "aa") (by decide)
  have hpieces : Cutting (ascii "aa") (ascii "k==aaav=") [ascii "k==", ascii "av="] := by
    refine .cut ⟨rfl, by decide⟩ (.last (by decide))
  refine ⟨by decide, ?_⟩
  rw [hvector, ← hall _ hpieces]
  decide

end StringUtil

end CoroutineRpc.Comm
