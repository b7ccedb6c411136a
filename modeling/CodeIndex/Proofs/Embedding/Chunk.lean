import CodeIndex.Embedding.Chunk
import Mathlib.Algebra.BigOperators.Group.List.Basic
import Mathlib.Algebra.GroupWithZero.Nat
import Mathlib.Order.Bounds.Basic

/-!
# Chunks of a text

Tokens may end in the middle of a character, windows may not.  `Tokens.IsWindow` says which window
is taken, `Tokens.CutInto` that a list of tokens falls into such windows from first to last.
Wherever a window ends there is a boundary between characters, so the rest spells a text again and
the cutting never fails: `chunkText_lossless_greedy`.
-/

namespace CodeIndex

namespace Tokens

/-! ## §1 Octets that spell a text -/

private theorem foldl_octets (bytes : ByteArray) (tokens : Tokens) :
    tokens.foldl (· ++ ·) bytes = bytes ++ octets tokens := by
  induction tokens generalizing bytes with
  | nil => exact ByteArray.append_empty.symm
  | cons t tokens ih =>
    show tokens.foldl (· ++ ·) (bytes ++ t) = bytes ++ tokens.foldl (· ++ ·) (ByteArray.empty ++ t)
    rw [ih, ih, ByteArray.empty_append, ByteArray.append_assoc]

/-- The octets of tokens are those of each token in a row. -/
theorem octets_append (ts us : Tokens) : octets (ts ++ us) = octets ts ++ octets us := by
  rw [octets, List.foldl_append, foldl_octets]
  rfl

/-- Behind a text, octets spell a text just if all of them together do. -/
theorem isValidUTF8_append_iff {a b : ByteArray} (ha : a.IsValidUTF8) :
    (a ++ b).IsValidUTF8 ↔ b.IsValidUTF8 := by
  constructor
  · intro h
    -- where the first part ends there is a place between characters of the whole
    let whole : String := ⟨a ++ b, h⟩
    have hsize : whole.utf8ByteSize = a.size + b.size := ByteArray.size_append
    have hplace : String.Pos.Raw.IsValid whole ⟨a.size⟩ := by
      apply String.Pos.Raw.isValid_iff_isValidUTF8_extract_zero.2
      refine ⟨?_, ?_⟩
      · show a.size ≤ whole.utf8ByteSize
        omega
      · show ((a ++ b).extract 0 a.size).IsValidUTF8
        rw [ByteArray.extract_append_eq_left rfl]
        exact ha
    have hrest := (String.Pos.Raw.isValid_iff_isValidUTF8_extract_utf8ByteSize.1 hplace).2
    change ((a ++ b).extract a.size whole.utf8ByteSize).IsValidUTF8 at hrest
    rw [ByteArray.extract_append_eq_right rfl hsize] at hrest
    exact hrest
  · exact ha.append

private theorem fromUTF8?_eq_some_iff {bytes : ByteArray} {text : String} :
    String.fromUTF8? bytes = some text ↔ bytes = text.toUTF8 := by
  unfold String.fromUTF8?
  constructor
  · intro h
    split at h
    · cases h
      rfl
    · cases h
  · rintro rfl
    exact dif_pos text.isValidUTF8

private theorem spell?_eq_some_iff {tokens : Tokens} {n : Nat} {text : String} :
    tokens.spell? n = some text ↔ octets (tokens.take n) = text.toUTF8 :=
  fromUTF8?_eq_some_iff

private theorem isSome_spell?_iff {tokens : Tokens} {n : Nat} :
    (tokens.spell? n).isSome = true ↔ (octets (tokens.take n)).IsValidUTF8 := by
  unfold spell? String.fromUTF8?
  split
  · next h => simp [h]
  · next h => simp [h]

/-! ## §2 Windows -/

/-- The first `n` tokens, at least one, spell a text. -/
def Boundary (tokens : Tokens) (n : Nat) : Prop :=
  0 < n ∧ n ≤ tokens.length ∧ (octets (tokens.take n)).IsValidUTF8

/-- The window of `n` tokens is the largest one within the limit; if there is none, the smallest one
beyond it. -/
def IsWindow (limit : Nat) (tokens : Tokens) (n : Nat) : Prop :=
  IsGreatest {k | k ≤ limit ∧ tokens.Boundary k} n ∨
    (∀ k ≤ limit, ¬tokens.Boundary k) ∧ IsLeast {k | limit < k ∧ tokens.Boundary k} n

/-- The tokens fall into these windows. -/
inductive CutInto (limit : Nat) : Tokens → List TextChunk → Prop where
  | done : CutInto limit [] []
  | window {tokens : Tokens} {n : Nat} {text : String} {chunks : List TextChunk} :
      IsWindow limit tokens n → tokens.spell? n = some text →
      CutInto limit (tokens.drop n) chunks → CutInto limit tokens (⟨text, n⟩ :: chunks)

variable {limit n : Nat} {tokens : Tokens} {text : String}

/-- A search through numbers in order finds the first that is a boundary. -/
theorem findSome?_cut?_first {ns : List Nat} {r : Nat → Nat → Prop} (hordered : ns.Pairwise r)
    (h : ns.findSome? tokens.cut? = some (n, text)) :
    ∀ k ∈ ns, (tokens.spell? k).isSome = true → k = n ∨ r n k := by
  obtain ⟨before, m, after, rfl, hm, hbefore⟩ := List.findSome?_eq_some_iff.1 h
  obtain ⟨t, ht, heq⟩ := Option.map_eq_some_iff.1 hm
  obtain ⟨rfl, rfl⟩ := Prod.mk.inj heq
  intro k hk hspell
  rcases List.mem_append.1 hk with hk | hk
  · -- those before the first boundary are none
    have hnone := hbefore k hk
    rw [cut?, Option.map_eq_none_iff] at hnone
    rw [hnone] at hspell
    cases hspell
  · rcases List.mem_cons.1 hk with rfl | hk
    · exact .inl rfl
    · exact .inr ((List.pairwise_cons.1 (List.pairwise_append.1 hordered).2.1).1 k hk)

private theorem not_isValidUTF8_of_findSome?_eq_none {ns : List Nat}
    (h : ns.findSome? tokens.cut? = none) {k : Nat} (hk : k ∈ ns) :
    ¬(octets (tokens.take k)).IsValidUTF8 := by
  intro hvalid
  have hnone := List.findSome?_eq_none_iff.1 h k hk
  rw [cut?, Option.map_eq_none_iff] at hnone
  have hspell := isSome_spell?_iff.2 hvalid
  rw [hnone] at hspell
  cases hspell

private theorem mem_within_iff {k : Nat} : k ∈ (List.range' 1 (tokens.take limit).length).reverse ↔
    0 < k ∧ k ≤ limit ∧ k ≤ tokens.length := by
  simp only [List.mem_reverse, List.mem_range'_1, List.length_take]
  omega

private theorem mem_beyond_iff {k : Nat} : k ∈ List.range' (limit + 1) (tokens.length - limit) ↔
    limit < k ∧ k ≤ tokens.length := by
  simp only [List.mem_range'_1]
  omega

private theorem isWindow_of_window? (h : window? limit tokens = some (n, text)) :
    IsWindow limit tokens n ∧ tokens.spell? n = some text := by
  unfold window? at h
  split at h
  · next hwithin =>
    cases h
    obtain ⟨hmem, hspell⟩ := mem_of_findSome?_cut? hwithin
    rw [mem_within_iff] at hmem
    have hvalid := isSome_spell?_iff.1 (Option.isSome_of_eq_some hspell)
    refine ⟨.inl ⟨⟨hmem.2.1, hmem.1, hmem.2.2, hvalid⟩, ?_⟩, hspell⟩
    -- the numbers within the limit are tried from the largest down
    rintro k ⟨hlimit, hpos, hlength, hboundary⟩
    have hordered : (List.range' 1 (tokens.take limit).length).reverse.Pairwise (· > ·) :=
      List.pairwise_reverse.2 List.pairwise_lt_range'
    have hfirst := findSome?_cut?_first hordered hwithin k
      (mem_within_iff.2 ⟨hpos, hlimit, hlength⟩) (isSome_spell?_iff.2 hboundary)
    rcases hfirst with rfl | hlt
    · exact Nat.le_refl _
    · exact Nat.le_of_lt hlt
  · next hwithin =>
    obtain ⟨hmem, hspell⟩ := mem_of_findSome?_cut? h
    rw [mem_beyond_iff] at hmem
    have hvalid := isSome_spell?_iff.1 (Option.isSome_of_eq_some hspell)
    refine ⟨.inr ⟨?_, ⟨hmem.1, Nat.zero_lt_of_lt hmem.1, hmem.2, hvalid⟩, ?_⟩, hspell⟩
    · rintro k hlimit ⟨hpos, hlength, hboundary⟩
      exact not_isValidUTF8_of_findSome?_eq_none hwithin
        (mem_within_iff.2 ⟨hpos, hlimit, hlength⟩) hboundary
    · -- those beyond it from the smallest up
      rintro k ⟨hlimit, hpos, hlength, hboundary⟩
      have hfirst := findSome?_cut?_first List.pairwise_lt_range' h k
        (mem_beyond_iff.2 ⟨hlimit, hlength⟩) (isSome_spell?_iff.2 hboundary)
      rcases hfirst with rfl | hlt
      · exact Nat.le_refl _
      · exact Nat.le_of_lt hlt

/-- Tokens that spell a text have a window: at the latest it is all of them. -/
theorem exists_window? (hvalid : (octets tokens).IsValidUTF8) (hne : tokens ≠ []) :
    ∃ w, window? limit tokens = some w := by
  have hall : (octets (tokens.take tokens.length)).IsValidUTF8 := by
    rw [List.take_length]
    exact hvalid
  have hpos : 0 < tokens.length := List.length_pos_iff.2 hne
  unfold window?
  split
  · exact ⟨_, rfl⟩
  · next hwithin =>
    apply Option.ne_none_iff_exists'.1
    intro hbeyond
    -- all tokens together end between characters, within the limit or beyond it
    rcases Nat.lt_or_ge limit tokens.length with hlt | hle
    · exact not_isValidUTF8_of_findSome?_eq_none hbeyond
        (mem_beyond_iff.2 ⟨hlt, Nat.le_refl _⟩) hall
    · exact not_isValidUTF8_of_findSome?_eq_none hwithin
        (mem_within_iff.2 ⟨hpos, hle, Nat.le_refl _⟩) hall

/-! ## §3 All windows of a text -/

/-- After a window, the other tokens spell a text again, so the cutting goes on to the end. -/
theorem windows_cutInto (limit start : Nat) {tokens : Tokens}
    (hvalid : (octets tokens).IsValidUTF8) :
    ∃ chunks, windows limit start tokens = .ok chunks ∧ CutInto limit tokens chunks := by
  fun_induction windows limit start tokens with
  | case1 start tokens hempty =>
    obtain rfl := List.isEmpty_iff.1 hempty
    exact ⟨[], rfl, .done⟩
  | case2 start tokens hne hnone =>
    obtain ⟨w, hw⟩ := exists_window? hvalid (fun h => hne (List.isEmpty_iff.2 h))
    rw [hw] at hnone
    cases hnone
  | case3 start tokens hne n text hwindow ih =>
    obtain ⟨hgreedy, hspell⟩ := isWindow_of_window? hwindow
    -- what follows a window is valid again, so the cutting goes on
    have hsplit : octets tokens = octets (tokens.take n) ++ octets (tokens.drop n) := by
      rw [← octets_append, List.take_append_drop]
    rw [hsplit] at hvalid
    obtain ⟨chunks, hchunks, hcut⟩ := ih ((isValidUTF8_append_iff
      (isSome_spell?_iff.1 (Option.isSome_of_eq_some hspell))).1 hvalid)
    rw [hchunks]
    exact ⟨_, rfl, .window hgreedy hspell hcut⟩

/-- A window ends between characters. -/
theorem IsWindow.boundary (h : IsWindow limit tokens n) : tokens.Boundary n := by
  rcases h with hgreatest | ⟨_, hleast⟩
  · exact hgreatest.1.2
  · exact hleast.1.2

variable {chunks before after : List TextChunk} {c : TextChunk}

/-- The chunks make up the whole text. -/
theorem CutInto.octets_eq (h : CutInto limit tokens chunks) :
    octets tokens = (String.join (chunks.map TextChunk.text)).toUTF8 := by
  induction h with
  | done => rfl
  | @window tokens n text chunks _ hspell _ ih =>
    rw [List.map_cons, String.join_cons, String.toUTF8_eq_toByteArray, String.toByteArray_append]
    show _ = text.toUTF8 ++ (String.join (chunks.map TextChunk.text)).toUTF8
    rw [← spell?_eq_some_iff.1 hspell, ← ih, ← octets_append, List.take_append_drop]

private theorem CutInto.sum_tokens (h : CutInto limit tokens chunks) :
    (chunks.map TextChunk.tokens).sum = tokens.length := by
  induction h with
  | done => rfl
  | @window tokens n text chunks hgreedy _ _ ih =>
    have hle := hgreedy.boundary.2.1
    rw [List.map_cons, List.sum_cons, ih, List.length_drop]
    show n + (tokens.length - n) = _
    omega

/-- Every chunk is the window of the tokens that those before it leave, and these end with a
character. -/
theorem CutInto.of_split (h : CutInto limit tokens (before ++ c :: after)) :
    let taken := (before.map TextChunk.tokens).sum
    (octets (tokens.take taken)).IsValidUTF8 ∧ IsWindow limit (tokens.drop taken) c.tokens ∧
      Tokens.spell? (tokens.drop taken) c.tokens = some c.text := by
  induction before generalizing tokens with
  | nil =>
    cases h with
    | window hgreedy hspell _ => exact ⟨ByteArray.isValidUTF8_empty, hgreedy, hspell⟩
  | cons b before ih =>
    cases h with
    | @window _ n text _ _ hspell hrest =>
      -- the tokens taken so far are those of the first window and of the others
      obtain ⟨hvalid, hwindow⟩ := ih hrest
      have hfirst := isSome_spell?_iff.1 (Option.isSome_of_eq_some hspell)
      simp only [List.map_cons, List.sum_cons, List.take_add, octets_append, ← List.drop_drop]
      exact ⟨hfirst.append hvalid, hwindow⟩

/-- Between characters of the text stand exactly those tokens before which the octets spell a text.
-/
theorem isValid_offset_iff (h : octets tokens = text.toUTF8) (n : Nat) :
    String.Pos.Raw.IsValid text ⟨(octets (tokens.take n)).size⟩ ↔
      (octets (tokens.take n)).IsValidUTF8 := by
  have hsplit : text.toByteArray = octets (tokens.take n) ++ octets (tokens.drop n) := by
    rw [← octets_append, List.take_append_drop, h]
    rfl
  have hle : (octets (tokens.take n)).size ≤ text.utf8ByteSize := by
    rw [← String.size_toByteArray, hsplit, ByteArray.size_append]
    exact Nat.le_add_right ..
  rw [String.Pos.Raw.isValid_iff_isValidUTF8_extract_zero, hsplit,
    ByteArray.extract_append_eq_left rfl]
  exact and_iff_right hle

/-- A window beyond the limit means that the tokens within it end inside one character. -/
theorem CutInto.not_isValid_offset (hcut : CutInto limit tokens (before ++ c :: after))
    (h : octets tokens = text.toUTF8) (hbeyond : limit < c.tokens) {k : Nat} (hpos : 0 < k)
    (hlimit : k ≤ limit) : ¬String.Pos.Raw.IsValid text
      ⟨(octets (tokens.take ((before.map TextChunk.tokens).sum + k))).size⟩ := by
  obtain ⟨hvalid, hwindow, _⟩ := hcut.of_split
  have hlength := hwindow.boundary.2.1
  rw [isValid_offset_iff h, List.take_add, octets_append, isValidUTF8_append_iff hvalid]
  intro hboundary
  rcases hwindow with hgreatest | ⟨hnone, _⟩
  · have hwithin := hgreatest.1.1
    omega
  · exact hnone k hlimit ⟨hpos, by omega, hboundary⟩

end Tokens

open Tokens

variable {text : String} {tokens : Tokens}

/-- Any text can be cut along its tokens. -/
theorem chunkText_cutInto (maxTokens : Nat) (h : octets tokens = text.toUTF8) :
    ∃ chunks, chunkText maxTokens text tokens = .ok chunks ∧
      (tokens.length ≤ max 1 maxTokens → chunks = [⟨text, max 1 tokens.length⟩]) ∧
      (tokens ≠ [] → CutInto (max 1 maxTokens) tokens chunks) := by
  have hvalid : (octets tokens).IsValidUTF8 := by
    rw [h]
    exact text.isValidUTF8
  unfold chunkText
  by_cases hfits : tokens.length ≤ max 1 maxTokens
  · refine ⟨_, if_pos hfits, fun _ => rfl, fun hne => ?_⟩
    have hpos : 0 < tokens.length := List.length_pos_iff.2 hne
    rw [Nat.max_eq_right hpos]
    -- all tokens are a window, which leaves none
    apply CutInto.window
    · refine .inl ⟨⟨hfits, hpos, Nat.le_refl _, ?_⟩, fun k hk => hk.2.2.1⟩
      rw [List.take_length]
      exact hvalid
    · rw [spell?_eq_some_iff, List.take_length]
      exact h
    · rw [List.drop_length]
      exact .done
  · obtain ⟨chunks, hchunks, hcut⟩ := windows_cutInto (max 1 maxTokens) 0 hvalid
    exact ⟨chunks, (if_neg hfits).trans hchunks, fun hle => absurd hle hfits, fun _ => hcut⟩

/-- Chunking is lossless, bounded and greedy, and it never fails.  The chunks of a text, along any
tokens with the text's octets, join to the text; they weigh as much as there are tokens and each of
them something, or there is one chunk, if all tokens are within the limit.  Every chunk is the
largest window of the next tokens within the limit that spells a text, or, if none does, the
smallest beyond it; so a chunk is beyond the limit only where no character of the text ends within
it. -/
theorem chunkText_lossless_greedy (maxTokens : Nat) (text : String) (tokens : Tokens)
    (h : octets tokens = text.toUTF8) :
    let limit := max 1 maxTokens
    ∃ chunks, chunkText maxTokens text tokens = .ok chunks ∧
      String.join (chunks.map TextChunk.text) = text ∧
      (limit < tokens.length → (∀ c ∈ chunks, 1 ≤ c.tokens) ∧
        (chunks.map TextChunk.tokens).sum = tokens.length) ∧
      (tokens.length ≤ limit → chunks = [⟨text, max 1 tokens.length⟩]) ∧
      (tokens ≠ [] → ∀ before c after, chunks = before ++ c :: after →
        let taken := (before.map TextChunk.tokens).sum
        Tokens.spell? (tokens.drop taken) c.tokens = some c.text ∧
          IsWindow limit (tokens.drop taken) c.tokens ∧
          (limit < c.tokens → ∀ k, 1 ≤ k → k ≤ limit → ¬String.Pos.Raw.IsValid text
            ⟨(octets (tokens.take (taken + k))).size⟩)) := by
  obtain ⟨chunks, hchunks, hsingle, hcut⟩ := chunkText_cutInto maxTokens h
  refine ⟨chunks, hchunks, ?_, fun hlong => ?_, hsingle, ?_⟩
  · -- a text without tokens is a chunk as it is
    by_cases hempty : tokens = []
    · have hfits : tokens.length ≤ max 1 maxTokens := by simp [hempty]
      rw [hsingle hfits]
      simp [String.join_cons]
    · have hoctets := (hcut hempty).octets_eq
      rw [h] at hoctets
      exact (String.toByteArray_inj.1 hoctets).symm
  · have hne : tokens ≠ [] := by
      rintro rfl
      cases hlong
    refine ⟨?_, (hcut hne).sum_tokens⟩
    intro c hc
    obtain ⟨before, after, rfl⟩ := List.append_of_mem hc
    exact (hcut hne).of_split.2.1.boundary.1
  · rintro hne before c after rfl
    -- each chunk is the window that the chunks before it leave
    obtain ⟨_, hwindow, hspell⟩ := (hcut hne).of_split
    refine ⟨hspell, hwindow, fun hbeyond k hpos hlimit => ?_⟩
    exact (hcut hne).not_isValid_offset h hbeyond hpos hlimit

namespace Sample

/-- Tokens of "aéb", two of which share a character. -/
def accented : Tokens := [⟨#[0x61]⟩, ⟨#[0xc3]⟩, ⟨#[0xa9]⟩, ⟨#[0x62]⟩]

end Sample

/-- With one token a chunk, the second chunk is beyond the limit, as its first token ends inside a
character. -/
theorem chunkText_lossless_greedy_sample :
    octets Sample.accented = "aéb".toUTF8 ∧
      chunkText 1 "aéb" Sample.accented = .ok [⟨"a", 1⟩, ⟨"é", 2⟩, ⟨"b", 1⟩] ∧
      String.join ["a", "é", "b"] = "aéb" ∧ [1, 2, 1].sum = Sample.accented.length ∧
      ¬String.Pos.Raw.IsValid "aéb" ⟨(octets (Sample.accented.take 2)).size⟩ := by
  have htokens : octets Sample.accented = "aéb".toUTF8 := by decide
  have hcut : (chunkText 1 "aéb" Sample.accented).toOption =
      some [⟨"a", 1⟩, ⟨"é", 2⟩, ⟨"b", 1⟩] := by decide +kernel
  obtain ⟨chunks, hchunks, hjoin, hsum, _, hgreedy⟩ :=
    chunkText_lossless_greedy 1 "aéb" Sample.accented htokens
  rw [hchunks] at hcut
  obtain rfl := Option.some.inj hcut
  have hlong : 1 < Sample.accented.length := by decide
  refine ⟨htokens, hchunks, hjoin, (hsum hlong).2, ?_⟩
  exact (hgreedy nofun [⟨"a", 1⟩] ⟨"é", 2⟩ [⟨"b", 1⟩] rfl).2.2 (by decide) 1 (by decide) (by decide)

end CodeIndex
