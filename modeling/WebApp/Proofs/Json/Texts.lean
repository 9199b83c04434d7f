import Mathlib.Tactic
import WebApp.Proofs.Json.Strings

/-!
# Reading objects of texts

What the program says of an error is an object whose members are texts.  The printer's text of
such an object is read back as the same object, whatever characters the texts are made of.
-/

namespace WebApp
namespace Json

/-- A member whose value is a text. -/
def textMember (entry : String × String) : String × Json :=
  (entry.1, .string entry.2)

namespace Reader

/-- The bytes of a member whose value is a text. -/
def entryBytes (key text : String) : Bytes :=
  34 :: closedBytes key ++ 58 :: 34 :: closedBytes text

theorem takes_text (depth : Nat) (text : String) (rest : Bytes) :
    Takes (value (depth + 1)) (34 :: closedBytes text) rest (.string text) := by
  have hscalar : Takes (scalar 34) (34 :: closedBytes text) rest (.string text) :=
    (takes_skip 34 _).bind ((takes_string text rest).map Json.string)
  have htoken : Takes peekToken [] (34 :: closedBytes text ++ rest) (some 34) :=
    takes_token rfl _
  refine Takes.placed ?_
  exact htoken.after hscalar

theorem takes_colon (rest : Bytes) : Takes colon [58] rest () := by
  have hcolon : Takes peekToken [] ([58] ++ rest) (some 58) := takes_token rfl rest
  exact hcolon.after (takes_skip 58 rest)

theorem takes_endOfObject (rest : Bytes) : Takes endOfObject [125] rest () := by
  have hend : Takes peekToken [] ([125] ++ rest) (some 125) := takes_token rfl rest
  exact hend.after (takes_skip 125 rest)

theorem takes_noMembers (depth fuel : Nat) (isFirst : Bool) (rest : Bytes) :
    Takes (readMembers (value (depth + 1)) (fuel + 1) isFirst) [] (125 :: rest) [] := by
  have htoken : Takes peekToken [] (125 :: rest) (some 125) := takes_token rfl rest
  have hend : Takes (memberFollows isFirst) [] (125 :: rest) false := by
    refine htoken.after ?_
    exact takes_pure _ _
  refine hend.after ?_
  exact takes_pure _ _

theorem takes_member {fuel depth : Nat} {isFirst : Bool} {key text : String}
    {mark bytes rest : Bytes} {members : List (String × Json)}
    (hfollows : Takes (memberFollows isFirst) mark (entryBytes key text ++ bytes ++ rest) true)
    (hmore : Takes (readMembers (value (depth + 1)) fuel false) bytes rest members) :
    Takes (readMembers (value (depth + 1)) (fuel + 1) isFirst)
      (mark ++ (entryBytes key text ++ bytes)) rest ((key, .string text) :: members) := by
  have hbytes : entryBytes key text ++ bytes =
      (34 :: closedBytes key) ++ ([58] ++ ((34 :: closedBytes text) ++ bytes)) := by
    simp [entryBytes]
  have hkey : Takes Reader.key (34 :: closedBytes key)
      ([58] ++ ((34 :: closedBytes text) ++ bytes) ++ rest) key :=
    (takes_skip 34 _).bind (takes_string key _)
  refine hfollows.bind ?_
  rw [hbytes]
  refine hkey.bind ((takes_colon _).bind ?_)
  refine Takes.bind (takes_text depth text _) ?_
  exact hmore.map fun members => (key, Json.string text) :: members

/-- The members behind the first one. -/
def moreBytes (entries : List (String × String)) : Bytes :=
  entries.flatMap fun entry => 44 :: entryBytes entry.1 entry.2

theorem moreBytes_cons (entry : String × String) (entries : List (String × String)) :
    moreBytes (entry :: entries) =
      [44] ++ (entryBytes entry.1 entry.2 ++ moreBytes entries) :=
  rfl

theorem length_le_moreBytes (entries : List (String × String)) :
    entries.length ≤ (moreBytes entries).length := by
  induction entries with
  | nil => simp
  | cons entry entries ih =>
      simp only [moreBytes, List.flatMap_cons, List.length_append, List.length_cons] at ih ⊢
      omega

theorem takes_moreMembers (depth : Nat) (entries : List (String × String)) (rest : Bytes)
    {fuel : Nat} (hfuel : entries.length < fuel) :
    Takes (readMembers (value (depth + 1)) fuel false) (moreBytes entries) (125 :: rest)
      (entries.map textMember) := by
  induction entries generalizing fuel with
  | nil =>
      obtain ⟨fuel, rfl⟩ : ∃ k, fuel = k + 1 := ⟨fuel - 1, by simp at hfuel; omega⟩
      exact takes_noMembers depth fuel false rest
  | cons entry entries ih =>
      rw [List.length_cons] at hfuel
      obtain ⟨fuel, rfl⟩ : ∃ k, fuel = k + 1 := ⟨fuel - 1, by omega⟩
      have hfollows : Takes (memberFollows false) [44]
          (entryBytes entry.1 entry.2 ++ moreBytes entries ++ 125 :: rest) true := by
        have hcomma : Takes peekToken [] ([44] ++ (entryBytes entry.1 entry.2 ++
            moreBytes entries ++ 125 :: rest)) (some 44) := takes_token rfl _
        have hquote : Takes peekToken [] (entryBytes entry.1 entry.2 ++ moreBytes entries ++
            125 :: rest) (some 34) := takes_token rfl _
        refine hcomma.after ((takes_skip 44 _).before ?_)
        refine hquote.before ?_
        exact takes_pure _ _
      have hfewer : entries.length < fuel := by omega
      rw [moreBytes_cons, List.map_cons]
      exact takes_member hfollows (ih hfewer)

/-- The members of an object of texts, up to its closing bracket. -/
theorem takes_members (depth : Nat) (entries : List (String × String)) (rest : Bytes) {fuel : Nat}
    (hfuel : entries.length < fuel) :
    Takes (readMembers (value (depth + 1)) fuel true) (moreBytes entries).tail (125 :: rest)
      (entries.map textMember) := by
  obtain ⟨fuel, rfl⟩ : ∃ k, fuel = k + 1 := ⟨fuel - 1, by omega⟩
  -- The first member has no comma in front of it.
  cases entries with
  | nil => exact takes_noMembers depth fuel true rest
  | cons entry entries =>
      rw [List.length_cons] at hfuel
      have hfollows : Takes (memberFollows true) []
          (entryBytes entry.1 entry.2 ++ moreBytes entries ++ 125 :: rest) true := by
        have hquote : Takes peekToken [] (entryBytes entry.1 entry.2 ++ moreBytes entries ++
            125 :: rest) (some 34) := takes_token rfl _
        refine hquote.before ?_
        exact takes_pure _ _
      have hfewer : entries.length < fuel := by omega
      rw [moreBytes_cons, List.map_cons]
      exact takes_member hfollows (takes_moreMembers depth entries rest hfewer)

theorem takes_object (depth : Nat) (entries : List (String × String)) (rest : Bytes) :
    Takes (value (depth + 2)) (123 :: ((moreBytes entries).tail ++ [125])) rest
      (ofMembers (entries.map textMember)) := by
  have hlength := length_le_moreBytes entries
  have hfuel : entries.length < ((moreBytes entries).tail ++ 125 :: rest).length + 1 := by
    simp only [List.length_append, List.length_tail, List.length_cons]
    omega
  have hinside : Takes (do readMembers (value (depth + 1)) (← rounds) true)
      (moreBytes entries).tail ([125] ++ rest)
      (entries.map textMember) :=
    (takes_rounds _).after (takes_members depth entries rest hfuel)
  have henclosed := hinside.enclosed 123 (show 1 < depth + 2 by omega) (takes_endOfObject rest)
  have hopen : Takes peekToken [] (123 :: ((moreBytes entries).tail ++ [125]) ++ rest) (some 123) :=
    takes_token rfl _
  exact (hopen.after (henclosed.map ofMembers)).placed

end Reader

/-! ## Texts that were printed -/

theorem chars_bytes (s : String) :
    (stringChars s).flatMap String.utf8EncodeChar = 34 :: Reader.closedBytes s := by
  unfold stringChars Reader.closedBytes
  rw [List.cons_append, List.flatMap_cons, List.flatMap_append]
  rfl

theorem memberChars_bytes (entries : List (String × String)) :
    (memberChars (entries.map textMember)).flatMap String.utf8EncodeChar =
      (Reader.moreBytes entries).tail := by
  have hentry : ∀ entry : String × String,
      (stringChars (textMember entry).1 ++ ':' :: chars (textMember entry).2).flatMap
        String.utf8EncodeChar = Reader.entryBytes entry.1 entry.2 := by
    intro entry
    rw [textMember, chars, List.flatMap_append, List.flatMap_cons, chars_bytes, chars_bytes]
    rfl
  induction entries with
  | nil => rfl
  | cons entry entries ih =>
      cases entries with
      | nil =>
          simp only [List.map_cons, List.map_nil, memberChars]
          rw [hentry]
          simp [Reader.moreBytes]
      | cons second entries =>
          simp only [List.map_cons, memberChars] at ih ⊢
          rw [List.flatMap_append, hentry, List.flatMap_cons, ih]
          rfl

/-! ## The order of the keys -/

/-- Members in the order of their keys, each key once. -/
def Ordered (members : List (String × Json)) : Prop :=
  members.Pairwise fun first second => first.1 < second.1

theorem mem_insertMember {key : String} {value : Json} {members : List (String × Json)}
    {member : String × Json} (hmember : member ∈ insertMember key value members) :
    member = (key, value) ∨ member ∈ members := by
  induction members with
  | nil => exact .inl (List.mem_singleton.mp hmember)
  | cons first rest ih =>
      unfold insertMember at hmember
      split_ifs at hmember
      · exact List.mem_cons.mp hmember
      · exact (List.mem_cons.mp hmember).imp_right (List.mem_cons_of_mem _)
      · rcases List.mem_cons.mp hmember with rfl | hmember
        · exact .inr List.mem_cons_self
        · exact (ih hmember).imp_right (List.mem_cons_of_mem _)

theorem Ordered.insertMember {members : List (String × Json)} (hordered : Ordered members)
    (key : String) (value : Json) : Ordered (insertMember key value members) := by
  induction members with
  | nil => exact List.pairwise_singleton _ _
  | cons first rest ih =>
      obtain ⟨hfirst, hrest⟩ := List.pairwise_cons.mp hordered
      unfold Json.insertMember
      split_ifs with hless hsame
      · refine List.pairwise_cons.mpr ⟨?_, hordered⟩
        intro member hmember
        rcases List.mem_cons.mp hmember with rfl | hmember
        · exact hless
        · exact String.lt_trans hless (hfirst member hmember)
      · subst hsame
        exact List.pairwise_cons.mpr ⟨hfirst, hrest⟩
      · refine List.pairwise_cons.mpr ⟨?_, ih hrest⟩
        intro member hmember
        rcases mem_insertMember hmember with rfl | hmember
        · apply Decidable.byContradiction
          intro hnot
          exact hsame (String.le_antisymm (String.not_lt.mp hnot) (String.not_lt.mp hless))
        · exact hfirst member hmember

theorem insertMember_last {key : String} (value : Json) {members : List (String × Json)}
    (hlast : ∀ member ∈ members, member.1 < key) :
    insertMember key value members = members ++ [(key, value)] := by
  induction members with
  | nil => rfl
  | cons first rest ih =>
      rw [List.forall_mem_cons] at hlast
      unfold insertMember
      rw [if_neg (String.lt_asymm hlast.1), if_neg (String.ne_of_lt hlast.1).symm, ih hlast.2]
      rfl

theorem foldl_insertMember {members done : List (String × Json)}
    (hordered : Ordered (done ++ members)) :
    members.foldl (fun sorted (k, v) => insertMember k v sorted) done = done ++ members := by
  induction members generalizing done with
  | nil => simp
  | cons first rest ih =>
      obtain ⟨key, value⟩ := first
      have hlast : ∀ member ∈ done, member.1 < key := by
        intro member hmember
        exact (List.pairwise_append.mp hordered).2.2 member hmember _ List.mem_cons_self
      have hnext := insertMember_last value hlast
      rw [List.append_cons] at hordered ⊢
      rw [List.foldl_cons]
      dsimp only
      rw [hnext, ih hordered]

theorem Ordered.ofMembers_eq {members : List (String × Json)} (hordered : Ordered members) :
    ofMembers members = .object members := by
  unfold ofMembers
  rw [foldl_insertMember (by simpa using hordered), List.nil_append]

theorem exists_insertMember_texts (key text : String) (sorted : List (String × String)) :
    ∃ longer : List (String × String),
      Json.insertMember key (.string text) (sorted.map textMember) = longer.map textMember := by
  induction sorted with
  | nil => exact ⟨[(key, text)], rfl⟩
  | cons first rest ih =>
      rw [List.map_cons]
      unfold Json.insertMember
      split_ifs
      · exact ⟨(key, text) :: first :: rest, rfl⟩
      · exact ⟨(key, text) :: rest, rfl⟩
      · obtain ⟨longer, hlonger⟩ := ih
        refine ⟨first :: longer, ?_⟩
        rw [hlonger]
        rfl

theorem exists_foldl_texts (entries sorted : List (String × String))
    (hsorted : Ordered (sorted.map textMember)) :
    ∃ all : List (String × String), Ordered (all.map textMember) ∧
      (entries.map textMember).foldl (fun sorted (k, v) => insertMember k v sorted)
        (sorted.map textMember) = all.map textMember := by
  induction entries generalizing sorted with
  | nil => exact ⟨sorted, hsorted, rfl⟩
  | cons entry entries ih =>
      obtain ⟨longer, hlonger⟩ := exists_insertMember_texts entry.1 entry.2 sorted
      have hordered := hsorted.insertMember entry.1 (.string entry.2)
      rw [hlonger] at hordered
      obtain ⟨all, hall, heq⟩ := ih longer hordered
      refine ⟨all, hall, ?_⟩
      rw [← heq, ← hlonger]
      rfl

theorem exists_ordered_texts (entries : List (String × String)) :
    ∃ sorted : List (String × String), Ordered (sorted.map textMember) ∧
      ofTexts entries = .object (sorted.map textMember) := by
  obtain ⟨all, hall, heq⟩ := exists_foldl_texts entries [] List.Pairwise.nil
  exact ⟨all, hall, congrArg Json.object heq⟩

/-- The text of an object of texts is read back as that object. -/
theorem read_ofTexts (entries : List (String × String)) :
    read (Utf8.encode (ofTexts entries).render) = .ok (ofTexts entries) := by
  obtain ⟨sorted, hordered, hobject⟩ := exists_ordered_texts entries
  have hbytes : Utf8.encode (ofTexts entries).render =
      123 :: ((Reader.moreBytes sorted).tail ++ [125]) := by
    unfold Utf8.encode render
    rw [hobject, chars, String.toList_ofList, List.cons_append, List.flatMap_cons,
      List.flatMap_append, memberChars_bytes]
    rfl
  have hvalue := Reader.takes_object 126 sorted []
  rw [hordered.ofMembers_eq, ← hobject] at hvalue
  rw [hbytes]
  exact hvalue.readAll_eq

end Json
end WebApp
