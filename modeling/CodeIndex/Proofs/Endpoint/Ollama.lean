import CodeIndex.Endpoint.Ollama
import CodeIndex.Proofs.Endpoint.Url
import Mathlib.Data.List.TakeWhile

/-!
# Ports of Ollama base URLs

The port of an Ollama server is sought behind the last colon of the whole base URL.  That colon is
the one in front of the port if nothing but slashes follows the authority
(`lastNumber?_eq_writtenPort?`).  Otherwise it may be the one behind the scheme, or stand in the
path, and what is contacted is said by `endpoint?_eq`.
-/

namespace CodeIndex.Ollama

open Url (Parts isEdge tidy)

/-! ## §1 The last colon -/

private theorem splitLastColon?_eq_some_iff {s before behind : List Char} :
    splitLastColon? s = some (before, behind) ↔ s = before ++ ':' :: behind ∧ ':' ∉ behind := by
  constructor
  · intro h
    -- the last colon is the first one of the reversed text
    have hsplit : s.reverse = s.reverse.takeWhile (· != ':') ++ s.reverse.dropWhile (· != ':') :=
      List.takeWhile_append_dropWhile.symm
    have hfree : ':' ∉ s.reverse.takeWhile (· != ':') := fun hmem => by
      simpa using List.mem_takeWhile_imp hmem
    have hhead := List.head?_dropWhile_not (· != ':') s.reverse
    unfold splitLastColon? at h
    split at h
    · cases h
    · next c before' hdrop =>
      obtain ⟨rfl, rfl⟩ := Prod.mk.inj (Option.some.inj h)
      rw [hdrop] at hsplit hhead
      obtain rfl : c = ':' := by simpa using hhead
      refine ⟨?_, by simpa using hfree⟩
      calc s = s.reverse.reverse := (List.reverse_reverse s).symm
        _ = (s.reverse.takeWhile (· != ':') ++ ':' :: before').reverse :=
          congrArg List.reverse hsplit
        _ = _ := by simp
  · rintro ⟨rfl, hfree⟩
    have hbehind : ∀ c ∈ behind.reverse, (c != ':') = true := fun c hc =>
      bne_iff_ne.2 fun heq => hfree (by simpa [heq] using hc)
    have hreverse : (before ++ ':' :: behind).reverse =
        behind.reverse ++ ':' :: before.reverse := by
      simp
    simp only [splitLastColon?, hreverse, List.dropWhile_append_of_pos hbehind,
      List.takeWhile_append_of_pos hbehind]
    simp

private theorem exists_trimSlashes_append (s : List Char) :
    ∃ slashes, s = trimSlashes s ++ slashes ∧ ∀ c ∈ slashes, c = '/' := by
  refine ⟨(s.reverse.takeWhile (· == '/')).reverse, ?_, fun c hc => ?_⟩
  · rw [trimSlashes, ← List.reverse_append, List.takeWhile_append_dropWhile, List.reverse_reverse]
  · simpa using List.mem_takeWhile_imp (List.mem_reverse.1 hc)

private theorem mem_of_mem_trimSlashes {c : Char} {s : List Char} (h : c ∈ trimSlashes s) :
    c ∈ s := by
  obtain ⟨slashes, hs, -⟩ := exists_trimSlashes_append s
  rw [hs]
  exact List.mem_append_left _ h

/-- Slashes are trimmed up to the last other character. -/
theorem trimSlashes_append {last : Char} (hlast : last ≠ '/') (front : List Char)
    {slashes : List Char} (hslashes : ∀ c ∈ slashes, c = '/') :
    trimSlashes (front ++ last :: slashes) = front ++ [last] := by
  have hreverse : (front ++ last :: slashes).reverse =
      slashes.reverse ++ last :: front.reverse := by
    simp
  rw [trimSlashes, hreverse, List.dropWhile_append_of_pos (by simpa using hslashes),
    List.dropWhile_cons_of_neg (by simpa using hlast)]
  simp

/-- The number that follows the last colon of a base URL, the slashes at the end aside. -/
def lastNumber? (base : String) : Option Nat :=
  (splitLastColon? (trimSlashes base.toList)).bind fun (_, digits) => Text.natOfBits? 16 digits

/-- A number consists of digits, perhaps behind a plus sign. -/
theorem of_natOfBits? {ds : List Char} {n : Nat} (h : Text.natOfBits? 16 ds = some n) :
    ds ≠ [] ∧ ∀ c ∈ ds, c = '+' ∨ c.isDigit = true := by
  unfold Text.natOfBits? at h
  -- a plus may stand in front of the digits
  split at h
  · next rest =>
    dsimp only at h
    split at h
    · cases h
    · next hread =>
      simp only [Bool.not_eq_true, Bool.or_eq_false_iff, Bool.not_eq_false',
        List.all_eq_true] at hread
      refine ⟨by simp, fun c hc => ?_⟩
      exact (List.mem_cons.1 hc).imp id (hread.2 c)
  · dsimp only at h
    split at h
    · cases h
    · next hread =>
      simp only [Bool.not_eq_true, Bool.or_eq_false_iff, Bool.not_eq_false',
        List.all_eq_true] at hread
      exact ⟨by simpa using hread.1, fun c hc => .inr (hread.2 c hc)⟩

private theorem hostAndPort_of_none {base : String} (h : lastNumber? base = none) :
    hostAndPort base = (String.ofList (trimSlashes base.toList), usualPort) := by
  simp only [lastNumber?, Option.bind_eq_none_iff] at h
  simp only [hostAndPort]
  split
  · next host digits hsplit => rw [h _ hsplit]
  · rfl

private theorem exists_of_lastNumber? {base : String} {n : Nat} (h : lastNumber? base = some n) :
    ∃ before ds, trimSlashes base.toList = before ++ ':' :: ds ∧ ':' ∉ ds ∧
      Text.natOfBits? 16 ds = some n ∧ hostAndPort base = (String.ofList before, n) := by
  obtain ⟨⟨before, ds⟩, hsplit, hn⟩ := Option.bind_eq_some_iff.1 h
  obtain ⟨htrim, hfree⟩ := splitLastColon?_eq_some_iff.1 hsplit
  exact ⟨before, ds, htrim, hfree, hn, by simp only [hostAndPort, hsplit, hn]⟩

private theorem lastNumber?_eq {base : String} {before ds : List Char}
    (h : trimSlashes base.toList = before ++ ':' :: ds) (hfree : ':' ∉ ds) :
    lastNumber? base = Text.natOfBits? 16 ds := by
  rw [lastNumber?, splitLastColon?_eq_some_iff.2 ⟨h, hfree⟩, Option.bind_some]

/-! ## §2 Where the last colon stands -/

/-- Where a URL can be cut at a colon. -/
inductive ColonAt (p : Parts) : (before behind : List Char) → Prop
  /-- Behind the scheme. -/
  | scheme : ColonAt p p.scheme (p.slashes ++ (p.authority ++ p.tail))
  /-- In the authority, and nothing follows it. -/
  | authority {front behind : List Char} (hauthority : p.authority = front ++ ':' :: behind)
      (htail : p.tail = []) : ColonAt p (p.scheme ++ ':' :: (p.slashes ++ front)) behind
  /-- In the tail. -/
  | tail {front behind : List Char} (htail : p.tail = front ++ ':' :: behind) :
      ColonAt p (p.scheme ++ ':' :: (p.slashes ++ (p.authority ++ front))) behind

private theorem exists_of_append_eq {x : Char} {l r before behind : List Char} (hx : x ∉ l)
    (h : l ++ r = before ++ x :: behind) :
    ∃ more, before = l ++ more ∧ r = more ++ x :: behind := by
  rcases List.append_eq_append_iff.1 h with ⟨more, hbefore, hr⟩ | ⟨more, rfl, hbehind⟩
  · exact ⟨more, hbefore, hr⟩
  · cases more with
    | nil => exact ⟨[], by simp, by simpa using hbehind.symm⟩
    | cons y more =>
      obtain ⟨rfl, -⟩ := List.cons_eq_cons.1 hbehind
      exact absurd (by simp) hx

private theorem endsAuthority_of_digit {c : Char} (h : c = '+' ∨ c.isDigit = true) :
    Url.endsAuthority true c = false := by
  have hne : ∀ x, x ≠ '+' → x.isDigit = false → c ≠ x := by
    rintro x hplus hdigit rfl
    simp [hplus, hdigit] at h
  simp [Url.endsAuthority, hne '/' (by decide) (by decide), hne '?' (by decide) (by decide),
    hne '#' (by decide) (by decide), hne '\\' (by decide) (by decide)]

/-- A colon in front of a number is at one of three places. -/
theorem colonAt_of_text {p : Parts} {before ds : List Char} (h : p.text = before ++ ':' :: ds)
    (hds : ∀ c ∈ ds, c = '+' ∨ c.isDigit = true) : ColonAt p before ds := by
  obtain ⟨more, rfl, hmore⟩ := exists_of_append_eq p.colon_not_mem_scheme h
  cases more with
  | nil =>
    obtain ⟨-, rfl⟩ := List.cons_eq_cons.1 hmore
    rw [List.append_nil]
    exact .scheme
  | cons y more =>
    obtain ⟨rfl, hrest⟩ := List.cons_eq_cons.1 hmore
    have hslashes : ':' ∉ p.slashes := fun hmem => absurd (p.slashes_chars ':' hmem) (by decide)
    obtain ⟨front, rfl, hfront⟩ := exists_of_append_eq hslashes hrest
    rcases List.append_eq_append_iff.1 hfront with ⟨front, rfl, htail⟩ | ⟨port, hauthority, hport⟩
    · exact .tail htail
    · cases port with
      | nil =>
        obtain rfl : front = p.authority := by simpa using hauthority.symm
        have hat : ColonAt p (p.scheme ++ ':' :: (p.slashes ++ (p.authority ++ []))) ds :=
          .tail hport.symm
        rwa [List.append_nil] at hat
      | cons y port =>
        obtain ⟨rfl, rfl⟩ := List.cons_eq_cons.1 hport
        -- what ends the authority is no part of a number
        have htail : p.tail = [] := by
          cases htail : p.tail with
          | nil => rfl
          | cons c tail =>
            have hends := p.tail_head c (by simp [htail])
            rw [endsAuthority_of_digit (hds c (by simp [htail]))] at hends
            cases hends
        show ColonAt p _ (port ++ p.tail)
        rw [htail, List.append_nil]
        exact .authority hauthority htail

/-! ## §3 Whom a base URL contacts -/

variable {base : String} {u : Url}

private theorem not_isEdge_of_digit {c : Char} (h : c = '+' ∨ c.isDigit = true) :
    isEdge c = false := by
  rcases h with rfl | hdigit
  · decide
  · exact Url.isEdge_of_isDigit hdigit

/-- The slashes at the end of a base URL do not matter. -/
theorem exists_parts_trimSlashes (hu : Url.ofText? base = some u)
    (hspecial : (Url.defaultPort? u.scheme).isSome = true) :
    ∃ p : Parts, tidy (trimSlashes base.toList) = p.text ∧ p.authority = Url.authority base ∧
      Url.ofAuthority? p.name true p.authority = some u := by
  obtain ⟨p, hp, hauthority⟩ := Url.exists_parts hu hspecial
  obtain ⟨slashes, hbase, hslashes⟩ := exists_trimSlashes_append base.toList
  -- slashes at the end, with the blanks in front of them, are all that is lost
  have hcut : ∃ behind, p.text = tidy (trimSlashes base.toList) ++ behind ∧
      ∀ c ∈ behind, isEdge c = true ∨ c = '/' := by
    by_cases hnil : slashes = []
    · rw [hnil, List.append_nil] at hbase
      exact ⟨[], by rw [← hp, ← hbase, List.append_nil], by simp⟩
    · obtain ⟨edge, hedge, htidy⟩ := Url.tidy_append (trimSlashes base.toList) hnil fun c hc => by
        rw [hslashes c hc]
        decide
      rw [← hbase, hp, List.append_assoc] at htidy
      exact ⟨edge ++ slashes, htidy, fun c hc => (List.mem_append.1 hc).imp (hedge c) (hslashes c)⟩
  obtain ⟨behind, htext, hbehind⟩ := hcut
  obtain ⟨q, hq, hname, hsame⟩ := Parts.exists_of_append hauthority htext hbehind
  exact ⟨q, hq, by rw [hsame, Url.authority_eq p hp], by rw [hname, hsame, hauthority]⟩

/-- The port behind an authority is the number behind its last colon. -/
theorem splitHost_of_colonAt {p : Parts} (hu : Url.ofAuthority? p.name true p.authority = some u)
    {front ds : List Char} {n : Nat} (hn : Text.natOfBits? 16 ds = some n) (hcolon : ':' ∉ ds)
    (hauthority : p.authority = front ++ ':' :: ds) :
    Url.splitHost false (Url.withoutUser p.authority) = (Url.withoutUser front, some ds) ∧
      Url.port? (some ds) = some (some n) := by
  obtain ⟨hne, hdigits⟩ := of_natOfBits? hn
  -- behind the colon there are digits, so neither a user nor a bracket
  have hnot : ∀ x, x ≠ '+' → x.isDigit = false → x ∉ ds := by
    intro x hplus hdigit hmem
    simpa [hplus, hdigit] using hdigits x hmem
  have hsplit := Url.splitHost_of_append p.authority_free hauthority hne hcolon
    (hnot '@' (by decide) (by decide)) (hnot ']' (by decide) (by decide)) hu
  refine ⟨hsplit, ?_⟩
  obtain ⟨host, port, -, hport, -⟩ := (Url.ofAuthority?_eq_some_iff p.authority_free).1 hu
  rw [hsplit] at hport
  obtain ⟨d, ds, rfl⟩ := List.exists_cons_of_ne_nil hne
  rw [hport, ← (Url.port?_cons hport).2.2, hn]

/-- In front of a colon with a number behind it the host is still named, unless it is the colon of
the scheme. -/
theorem exists_ofText?_of_colonAt {p : Parts}
    (hu : Url.ofAuthority? p.name true p.authority = some u)
    {before edge ds : List Char} {n : Nat} (hn : Text.natOfBits? 16 ds = some n) (hcolon : ':' ∉ ds)
    (hedge : ∀ c ∈ edge, isEdge c = true) (hat : ColonAt p (tidy before ++ edge) ds)
    (hmem : ':' ∈ tidy before ++ edge) :
    ∃ v, Url.ofText? (String.ofList before) = some v ∧ v.scheme = u.scheme ∧ v.host = u.host := by
  have hbehind : ∀ c ∈ edge, isEdge c = true ∨ c = '/' := fun c hc => .inl (hedge c hc)
  generalize hfront : tidy before ++ edge = front at hat hmem
  cases hat with
  | scheme => exact absurd hmem p.colon_not_mem_scheme
  | @authority front _ hauthority htail =>
    obtain ⟨hsplit, -⟩ := splitHost_of_colonAt hu hn hcolon hauthority
    obtain ⟨host, port, hhost, -, rfl⟩ := (Url.ofAuthority?_eq_some_iff p.authority_free).1 hu
    rw [hsplit] at hhost
    have hne : front ≠ [] := by
      rintro rfl
      exact UrlHost.ne_nil_of_ofText? hhost rfl
    have hfree : ∀ c ∈ front, Url.endsAuthority true c = false := fun c hc =>
      p.authority_free c (by simp [hauthority, hc])
    -- the URL without its port
    have hq : Url.ofAuthority? p.name true front = some (Url.ofHost p.name host none) := by
      refine (Url.ofAuthority?_eq_some_iff hfree).2 ⟨host, none, ?_, ?_, rfl⟩
      · rw [Url.splitHost_host hsplit]
        exact hhost
      · rw [Url.splitHost_host hsplit]
        rfl
    refine ⟨_, Parts.ofText?_of_append (p := p.withAuthority hne hfree) hq ?_ hbehind, ?_, ?_⟩
    · rw [hfront, Parts.text_withAuthority]
    · simp
    · simp
  | @tail front _ htail =>
    refine ⟨u, Parts.ofText?_of_append (p := p.withTail htail) hu ?_ hbehind, rfl, rfl⟩
    rw [hfront, Parts.text_withTail]

/-- The only colon is in front of a number: a scheme and a number without slashes. -/
def BareNumber (base : String) : Prop :=
  base.toList.count ':' = 1 ∧ (lastNumber? base).isSome = true

instance (base : String) : Decidable (BareNumber base) := inferInstanceAs (Decidable (_ ∧ _))

private theorem bareNumber_iff {before ds : List Char} {n : Nat}
    (htrim : trimSlashes base.toList = before ++ ':' :: ds) (hcolon : ':' ∉ ds)
    (hnumber : lastNumber? base = some n) :
    BareNumber base ↔ ':' ∉ before := by
  obtain ⟨slashes, hbase, hslashes⟩ := exists_trimSlashes_append base.toList
  have hnone : ':' ∉ slashes := fun hc => absurd (hslashes ':' hc) (by decide)
  rw [BareNumber, hbase, htrim, hnumber]
  simp [List.count_eq_zero.2 hcolon, List.count_eq_zero.2 hnone, List.count_eq_zero]

/-- Nobody is contacted where the base URL without its number is no URL. -/
theorem endpoint?_eq_none_iff : endpoint? base = none ↔
    Url.ofText? (hostAndPort base).1 = none := by
  simp [endpoint?]

/-- Nothing is contacted without a colon, or when the only colon is in front of a number. -/
theorem endpoint?_eq_none (h : ':' ∉ base.toList ∨ BareNumber base) : endpoint? base = none := by
  cases hnumber : lastNumber? base with
  | none =>
    obtain hcolon | hbare := h
    · have htrim : ':' ∉ trimSlashes base.toList := fun hc => hcolon (mem_of_mem_trimSlashes hc)
      simp [endpoint?, hostAndPort_of_none hnumber, Url.ofText?_eq_none, htrim]
    · simp [BareNumber, hnumber] at hbare
  | some n =>
    obtain ⟨before, ds, htrim, hcolon, -, hpair⟩ := exists_of_lastNumber? hnumber
    -- in both cases no colon is left in front of the number
    have hbefore : ':' ∉ before := by
      obtain hnone | hbare := h
      · exact absurd (mem_of_mem_trimSlashes (by simp [htrim])) hnone
      · exact (bareNumber_iff htrim hcolon hnumber).1 hbare
    simp [endpoint?, hpair, Url.ofText?_eq_none, hbefore]

/-- Whom a base URL contacts: its own host, at the number behind the last colon. -/
theorem endpoint?_eq (hu : Url.ofText? base = some u)
    (hspecial : (Url.defaultPort? u.scheme).isSome = true) :
    endpoint? base = if BareNumber base then none
      else some (u.withPort ((lastNumber? base).getD usualPort)) := by
  obtain ⟨p, hp, -, hauthority⟩ := exists_parts_trimSlashes hu hspecial
  cases hnumber : lastNumber? base with
  | none =>
    have hself : Url.ofText? (String.ofList (trimSlashes base.toList)) = some u :=
      Parts.ofText?_of_append hauthority (by rw [List.append_nil, hp]) (by simp)
    rw [if_neg (by simp [BareNumber, hnumber])]
    simp [endpoint?, hostAndPort_of_none hnumber, hself]
  | some n =>
    obtain ⟨before, ds, htrim, hcolon, hn, hpair⟩ := exists_of_lastNumber? hnumber
    obtain ⟨-, hdigits⟩ := of_natOfBits? hn
    have hblank : ∀ c ∈ ':' :: ds, isEdge c = false := by
      intro c hc
      rcases List.mem_cons.1 hc with rfl | hc
      · decide
      · exact not_isEdge_of_digit (hdigits c hc)
    obtain ⟨edge, hedge, htidy⟩ := Url.tidy_append before (List.cons_ne_nil _ _) hblank
    rw [← htrim, hp] at htidy
    have hat := colonAt_of_text htidy hdigits
    -- no colon is trimmed off, neither as a slash nor as a blank
    have hmem : ':' ∈ tidy before ++ edge ↔ ':' ∈ before := by
      rw [List.mem_append, Url.mem_tidy_iff (by decide), or_iff_left]
      exact fun hc => absurd (hedge ':' hc) (by decide)
    have hbare := bareNumber_iff htrim hcolon hnumber
    split
    · next h => exact endpoint?_eq_none (.inr h)
    · next h =>
      have hbefore : ':' ∈ before := by
        by_contra hnone
        exact h (hbare.2 hnone)
      obtain ⟨v, hv, hscheme, hhost⟩ :=
        exists_ofText?_of_colonAt hauthority hn hcolon hedge hat (hmem.2 hbefore)
      simp only [endpoint?, hpair, hv, Option.map_some, Option.getD_some]
      rw [Url.withPort_congr hscheme hhost]

/-! ## §4 Written ports -/

/-- A base URL without a path: nothing but slashes follows its authority. -/
def PathFree (base : String) : Prop :=
  ∃ scheme authority slashes : List Char,
    base.toList = scheme ++ ':' :: '/' :: '/' :: (authority ++ slashes) ∧ ':' ∉ scheme ∧
      authority ≠ [] ∧ (∀ c ∈ authority, isEdge c = false ∧ Url.endsAuthority true c = false) ∧
      ∀ c ∈ slashes, c = '/'

/-- Without a path, what follows the slashes behind the scheme is the authority. -/
theorem authority_eq_of_tidy {p : Parts} {scheme a : List Char} (hscheme : ':' ∉ scheme)
    (hne : a ≠ []) (ha : ∀ c ∈ a, isEdge c = false ∧ Url.endsAuthority true c = false)
    (h : tidy (scheme ++ ':' :: '/' :: '/' :: a) = p.text) : p.authority = a := by
  -- nothing behind the scheme is trimmed off
  have hblank : ∀ c ∈ ':' :: '/' :: '/' :: a, isEdge c = false := by
    intro c hc
    simp only [List.mem_cons] at hc
    rcases hc with rfl | rfl | rfl | hc
    · decide
    · decide
    · decide
    · exact (ha c hc).1
  obtain ⟨edge, hedge, htidy⟩ := Url.tidy_append scheme (List.cons_ne_nil _ _) hblank
  have hcolon : ':' ∉ tidy scheme ++ edge := by
    rw [List.mem_append, Url.mem_tidy_iff (by decide), not_or]
    exact ⟨hscheme, fun hc => absurd (hedge ':' hc) (by decide)⟩
  rw [h] at htidy
  obtain ⟨more, hmore, hrest⟩ := exists_of_append_eq hcolon htidy.symm
  -- both texts have their first colon behind the scheme
  have hbehind : '/' :: '/' :: a = p.slashes ++ (p.authority ++ p.tail) := by
    cases more with
    | nil => exact (List.cons_eq_cons.1 hrest).2
    | cons y more =>
      obtain ⟨rfl, -⟩ := List.cons_eq_cons.1 hrest
      exact absurd (by simp [hmore]) p.colon_not_mem_scheme
  obtain ⟨first, rest, hfirst⟩ := List.exists_cons_of_ne_nil hne
  have hslash : Url.isSlash first = false := Url.isSlash_of_free (ha first (by simp [hfirst])).2
  -- and behind the slashes the authority begins
  have hboth : a = p.authority ++ p.tail := by
    rw [← p.dropWhile_isSlash, ← hbehind, hfirst]
    simp [show Url.isSlash '/' = true by decide, hslash]
  rw [← Url.takeWhile_self_of_free fun c hc => (ha c hc).2, hboth,
    Url.takeWhile_of_free p.authority_free p.tail_head]

/-- Without a path, the number behind the last colon is the port that is written. -/
theorem lastNumber?_eq_writtenPort? (hu : Url.ofText? base = some u)
    (hspecial : (Url.defaultPort? u.scheme).isSome = true) (hpath : PathFree base) :
    lastNumber? base = Url.writtenPort? base := by
  obtain ⟨scheme, a, slashes, hbase, hscheme, hne, ha, hslashes⟩ := hpath
  obtain ⟨p, hp, hsame, hauthority⟩ := exists_parts_trimSlashes hu hspecial
  have htrim : trimSlashes base.toList = scheme ++ ':' :: '/' :: '/' :: a := by
    obtain hnil | ⟨front, last, hlast⟩ := List.eq_nil_or_concat a
    · exact absurd hnil hne
    · have hfree : last ≠ '/' := by
        rintro rfl
        exact absurd (ha '/' (by simp [hlast])).2 (by decide)
      have hcut := trimSlashes_append hfree (scheme ++ ':' :: '/' :: '/' :: front) hslashes
      rw [hbase, hlast]
      simpa using hcut
  rw [htrim] at hp
  have hp := authority_eq_of_tidy hscheme hne ha hp
  rw [Url.writtenPort?, ← hsame]
  refine Option.ext fun n => ⟨fun hn => ?_, fun hn => ?_⟩
  · -- the last colon is not in front of the slashes, as no number starts with one
    obtain ⟨before, ds, hsplit, hcolon, hn, -⟩ := exists_of_lastNumber? hn
    have hdigits := (of_natOfBits? hn).2
    rw [htrim] at hsplit
    obtain ⟨more, -, hmore⟩ := exists_of_append_eq hscheme hsplit
    cases more with
    | nil =>
      obtain ⟨-, rfl⟩ := List.cons_eq_cons.1 hmore
      exact absurd (hdigits '/' List.mem_cons_self) (by decide)
    | cons y more =>
      obtain ⟨-, hmore⟩ := List.cons_eq_cons.1 hmore
      obtain ⟨front, -, hfront⟩ :=
        exists_of_append_eq (l := ['/', '/']) (r := a) (by decide) hmore
      obtain ⟨hhost, hport⟩ := splitHost_of_colonAt hauthority hn hcolon (hp.trans hfront)
      rw [hhost, hport]
      rfl
  · obtain ⟨user, huser⟩ := Url.exists_append_withoutUser p.authority
    have hsplit := Url.splitHost_eq false (Url.withoutUser p.authority)
    generalize Url.splitHost false (Url.withoutUser p.authority) = parts at hn hsplit
    obtain ⟨host, port⟩ := parts
    -- without digits there is no number
    rcases port with - | - | ⟨d, ds⟩
    · cases hn
    · cases hn
    · obtain ⟨hdigits, -, hread⟩ := Url.port?_cons (Option.join_eq_some_iff.1 hn)
      have hcolon : ':' ∉ d :: ds := fun hc => absurd (hdigits ':' hc) (by decide)
      have hlast : trimSlashes base.toList =
          (scheme ++ ':' :: '/' :: '/' :: (user ++ host)) ++ ':' :: d :: ds := by
        rw [htrim, ← hp, huser, hsplit]
        simp
      rw [lastNumber?_eq hlast hcolon, hread]

/-- A path without a colon hides the port in front of it. -/
theorem lastNumber?_eq_none_of_path {front path : List Char}
    (hbase : base.toList = front ++ '/' :: path)
    (hcolon : ':' ∉ path) (hmore : ∃ c ∈ path, c ≠ '/') : lastNumber? base = none := by
  rw [Option.eq_none_iff_forall_ne_some]
  intro n hn
  obtain ⟨before, ds, htrim, -, hn, -⟩ := exists_of_lastNumber? hn
  obtain ⟨slashes, hsplit, hslashes⟩ := exists_trimSlashes_append base.toList
  rw [htrim, hbase, List.append_assoc, List.cons_append] at hsplit
  have hpath : ∃ more, ds ++ slashes = more ++ '/' :: path := by
    rcases List.append_eq_append_iff.1 hsplit with ⟨more, -, hmore⟩ | ⟨more, -, hmore⟩
    · have hmem : ':' ∈ '/' :: path := by simp [hmore]
      exact absurd hmem (by simp [hcolon])
    · cases more with
      | nil => simp at hmore
      | cons y more => exact ⟨more, (List.cons_eq_cons.1 hmore).2⟩
  obtain ⟨more, hpath⟩ := hpath
  -- a number has no slash, so the path would be one of the slashes at the end
  have hslash : '/' ∉ ds := fun hmem => absurd ((of_natOfBits? hn).2 '/' hmem) (by decide)
  obtain ⟨rest, -, hrest⟩ := exists_of_append_eq hslash hpath
  obtain ⟨c, hc, hne⟩ := hmore
  exact hne (hslashes c (by simp [hrest, hc]))

/-- The port that is written is contacted, or the usual one if there is none. -/
def Honours (base : String) (u : Url) : Prop :=
  endpoint? base = some (u.withPort ((Url.writtenPort? base).getD usualPort))

private theorem honours_iff (hu : Url.ofText? base = some u)
    (hspecial : (Url.defaultPort? u.scheme).isSome = true) :
    Honours base u ↔ ¬ BareNumber base ∧
      (lastNumber? base).getD usualPort = (Url.writtenPort? base).getD usualPort := by
  rw [Honours, endpoint?_eq hu hspecial]
  split
  · next hbare => simp [hbare]
  · next hbare =>
    rw [and_iff_right hbare, Option.some_inj]
    refine ⟨fun h => ?_, fun h => by rw [h]⟩
    -- the URLs differ in the effective port, if they differ
    have hport := congrArg Url.effectivePort? h
    rw [Url.effectivePort?_withPort, Url.effectivePort?_withPort] at hport
    exact Option.some.inj hport

private theorem not_bareNumber_of_pathFree (hpath : PathFree base) : ¬ BareNumber base := by
  obtain ⟨scheme, a, slashes, hbase, hscheme, -⟩ := hpath
  intro hbare
  obtain ⟨n, hnumber⟩ := Option.isSome_iff_exists.1 hbare.2
  obtain ⟨before, ds, htrim, hcolon, hn, -⟩ := exists_of_lastNumber? hnumber
  have hbefore := (bareNumber_iff htrim hcolon hnumber).1 hbare
  obtain ⟨trimmed, hsplit, -⟩ := exists_trimSlashes_append base.toList
  rw [htrim, hbase, List.append_assoc, List.cons_append] at hsplit
  -- both colons are the first one, but a number starts with no slash
  obtain ⟨more, rfl, hmore⟩ := exists_of_append_eq hscheme hsplit
  cases more with
  | nil =>
    obtain ⟨hne, hdigits⟩ := of_natOfBits? hn
    obtain ⟨d, ds, rfl⟩ := List.exists_cons_of_ne_nil hne
    obtain ⟨rfl, -⟩ := List.cons_eq_cons.1 (List.cons_eq_cons.1 hmore).2
    exact absurd (hdigits '/' List.mem_cons_self) (by decide)
  | cons y more =>
    obtain ⟨rfl, -⟩ := List.cons_eq_cons.1 hmore
    exact hbefore (by simp)

/-- A client of an absolute base URL contacts its host, unless a number stands right behind the
scheme; and the port is the number behind the last colon of the base URL.  That is the port that is
written behind the host where nothing but slashes follows it; but a path without a colon makes it
the usual port.  The host is as `UrlHost.ofText?` reads it, which accepts a few names that encode
nothing. -/
theorem port_honoured_iff (hu : Url.ofText? base = some u)
    (hscheme : u.scheme = "http" ∨ u.scheme = "https") :
    u.effectivePort? = (Url.writtenPort? base).or (Url.defaultPort? u.scheme) ∧
      (endpoint? base = if BareNumber base then none
        else some (u.withPort ((lastNumber? base).getD usualPort))) ∧
      (Honours base u ↔ ¬ BareNumber base ∧
        (lastNumber? base).getD usualPort = (Url.writtenPort? base).getD usualPort) ∧
      (PathFree base → Honours base u) ∧
      ∀ front path, base.toList = front ++ '/' :: path → ':' ∉ path → (∃ c ∈ path, c ≠ '/') →
        endpoint? base = some (u.withPort usualPort) := by
  have hspecial := Url.isSome_defaultPort? hscheme
  refine ⟨Url.effectivePort?_eq hu hspecial, endpoint?_eq hu hspecial, honours_iff hu hspecial,
    ?_, ?_⟩
  · intro hpath
    rw [honours_iff hu hspecial, lastNumber?_eq_writtenPort? hu hspecial hpath]
    exact ⟨not_bareNumber_of_pathFree hpath, rfl⟩
  · intro front path hbase hcolon hmore
    have hnumber := lastNumber?_eq_none_of_path hbase hcolon hmore
    rw [endpoint?_eq hu hspecial, if_neg (by simp [BareNumber, hnumber]), hnumber]
    rfl

/-- A path behind the port makes the client contact the usual port. -/
theorem port_honoured_iff_sample :
    Url.ofText? "http://localhost:8080/v1" = some ⟨"http", .domain "localhost", some 8080⟩ ∧
      Url.writtenPort? "http://localhost:8080/v1" = some 8080 ∧
      endpoint? "http://localhost:8080/v1" = some ⟨"http", .domain "localhost", some 11434⟩ ∧
      ¬ Honours "http://localhost:8080/v1" ⟨"http", .domain "localhost", some 8080⟩ := by
  have hu : Url.ofText? "http://localhost:8080/v1" =
      some ⟨"http", .domain "localhost", some 8080⟩ := by
    decide +kernel
  have hwritten : Url.writtenPort? "http://localhost:8080/v1" = some 8080 := by decide
  have hnumber : lastNumber? "http://localhost:8080/v1" = none := by decide
  obtain ⟨-, -, hiff, -, hpath⟩ := port_honoured_iff hu (.inl rfl)
  refine ⟨hu, hwritten, ?_, fun h => ?_⟩
  · exact hpath "http://localhost:8080".toList "v1".toList (by decide) (by decide)
      ⟨'v', by decide, by decide⟩
  · have hport := (hiff.1 h).2
    rw [hnumber, hwritten] at hport
    exact absurd hport (by decide)

end CodeIndex.Ollama
