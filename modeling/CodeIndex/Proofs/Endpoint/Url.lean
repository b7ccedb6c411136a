import CodeIndex.Endpoint.Url
import CodeIndex.Proofs.Endpoint.Host
import CodeIndex.Text.Basic
import Mathlib.Data.List.TakeWhile

/-!
# The parts of a URL

A URL of a scheme with a port of its own is a scheme, slashes, an authority and a tail (`Parts`).
Whom it contacts is said by scheme and authority alone: `ofText?_eq_ofAuthority?`.
-/

namespace CodeIndex.Url

/-! ## §1 Ports -/

/-- The port that a client of the URL contacts: the one of its own, or else that of its scheme. -/
def effectivePort? (u : Url) : Option Nat := u.port.or (defaultPort? u.scheme)

/-- The schemes of the web have ports of their own. -/
theorem isSome_defaultPort? {scheme : String} (h : scheme = "http" ∨ scheme = "https") :
    (defaultPort? scheme).isSome = true := by
  rcases h with rfl | rfl <;> rfl

/-- Who is given a port contacts that port. -/
@[simp] theorem effectivePort?_withPort (u : Url) (port : Nat) :
    (u.withPort port).effectivePort? = some port := by
  unfold effectivePort? withPort
  dsimp only
  split
  · next h => rw [h]; rfl
  · rfl

/-- With the same port, scheme and host are all there is to a URL. -/
theorem withPort_congr {u v : Url} (hscheme : u.scheme = v.scheme) (hhost : u.host = v.host)
    (port : Nat) : u.withPort port = v.withPort port := by
  simp [withPort, hscheme, hhost]

/-! ## §2 Edges -/

/-- A character that is trimmed at the ends of a URL. -/
def isEdge (c : Char) : Bool := c.toNat ≤ 0x20

/-- A character that is not taken out of a URL. -/
def isKept (c : Char) : Bool := c != '\t' && c != '\n' && c != '\r'

private theorem isKept_of_not_isEdge {c : Char} (h : isEdge c = false) : isKept c = true := by
  have hne : ∀ x, isEdge x = true → c ≠ x := by
    rintro x hx rfl
    rw [h] at hx
    cases hx
  simp [isKept, hne '\t' rfl, hne '\n' rfl, hne '\r' rfl]

private theorem tidy_eq (s : List Char) :
    tidy s = ((s.dropWhile isEdge).reverse.dropWhile isEdge).reverse.filter isKept := rfl

private theorem dropWhile_isEdge_append {w : List Char} (hne : w ≠ [])
    (hw : ∀ c ∈ w, isEdge c = false) (rest : List Char) :
    (w ++ rest).dropWhile isEdge = w ++ rest := by
  obtain ⟨first, more, rfl⟩ := List.exists_cons_of_ne_nil hne
  rw [List.cons_append, List.dropWhile_cons_of_neg (by simp [hw first List.mem_cons_self])]

/-- Behind characters that are no blanks nothing is trimmed, and what was trimmed before them is now
inside. -/
theorem tidy_append (x : List Char) {w : List Char} (hne : w ≠ [])
    (hw : ∀ c ∈ w, isEdge c = false) :
    ∃ edge, (∀ c ∈ edge, isEdge c = true) ∧ tidy (x ++ w) = tidy x ++ edge ++ w := by
  have hkept : w.filter isKept = w :=
    List.filter_eq_self.2 fun c hc => isKept_of_not_isEdge (hw c hc)
  -- the front is trimmed alike
  have hfront : (x ++ w).dropWhile isEdge = x.dropWhile isEdge ++ w := by
    rw [List.dropWhile_append]
    split
    · next hnil =>
      have hstart := dropWhile_isEdge_append hne hw []
      rw [List.append_nil] at hstart
      rw [List.isEmpty_iff.1 hnil, List.nil_append, hstart]
    · rfl
  generalize hinner : x.dropWhile isEdge = inner at hfront
  have hback : (inner ++ w).reverse.dropWhile isEdge = (inner ++ w).reverse := by
    rw [List.reverse_append]
    exact dropWhile_isEdge_append (by simpa using hne) (by simpa using hw) _
  have hsplit : inner = (inner.reverse.dropWhile isEdge).reverse ++
      (inner.reverse.takeWhile isEdge).reverse := by
    rw [← List.reverse_append, List.takeWhile_append_dropWhile, List.reverse_reverse]
  refine ⟨(inner.reverse.takeWhile isEdge).reverse.filter isKept, fun c hc => ?_, ?_⟩
  · exact List.mem_takeWhile_imp (List.mem_reverse.1 (List.mem_of_mem_filter hc))
  · rw [tidy_eq, tidy_eq, hfront, hback, hinner, List.reverse_reverse, List.filter_append, hkept,
      ← List.filter_append, ← hsplit]

private theorem mem_dropWhile_isEdge_iff {c : Char} (h : isEdge c = false) {s : List Char} :
    c ∈ s.dropWhile isEdge ↔ c ∈ s := by
  have hsplit : c ∈ s ↔ c ∈ s.takeWhile isEdge ++ s.dropWhile isEdge := by
    rw [List.takeWhile_append_dropWhile]
  rw [hsplit, List.mem_append, or_iff_right]
  intro hmem
  rw [List.mem_takeWhile_imp hmem] at h
  cases h

/-- Trimming takes nothing away but characters at the edge. -/
theorem mem_tidy_iff {c : Char} (h : isEdge c = false) {s : List Char} : c ∈ tidy s ↔ c ∈ s := by
  rw [tidy_eq, List.mem_filter, List.mem_reverse, mem_dropWhile_isEdge_iff h, List.mem_reverse,
    mem_dropWhile_isEdge_iff h]
  exact and_iff_left (isKept_of_not_isEdge h)

/-! ## §3 Authorities -/

section Authority

/-- The host and what stands behind its colon are all of the text. -/
theorem splitHost_eq (inside : Bool) (s : List Char) :
    s = (splitHost inside s).1 ++ ((splitHost inside s).2.elim [] (':' :: ·)) := by
  induction s generalizing inside with
  | nil => rfl
  | cons c rest ih =>
    rw [splitHost]
    split
    · next h => simp [h.1]
    · dsimp only
      rw [List.cons_append, ← ih]

/-- The host without the port behind it has no port. -/
theorem splitHost_host {inside : Bool} {s host port : List Char}
    (h : splitHost inside s = (host, some port)) : splitHost inside host = (host, none) := by
  induction s generalizing inside host with
  | nil => cases h
  | cons c rest ih =>
    rw [splitHost] at h
    -- the host ends at the first colon outside of brackets
    split at h
    · obtain ⟨rfl, -⟩ := Prod.mk.inj h
      rfl
    · next hcolon =>
      dsimp only at h
      obtain ⟨rfl, hport⟩ := Prod.mk.inj h
      rw [splitHost, if_neg hcolon]
      dsimp only
      rw [ih (Prod.ext rfl hport)]

/-- What is taken off in front is a user. -/
theorem exists_append_withoutUser (a : List Char) : ∃ user, a = user ++ withoutUser a := by
  refine ⟨(a.reverse.dropWhile (· != '@')).reverse, ?_⟩
  rw [withoutUser, ← List.reverse_append, List.takeWhile_append_dropWhile, List.reverse_reverse]

private theorem withoutUser_append {behind : List Char} (h : '@' ∉ behind) (a : List Char) :
    withoutUser (a ++ behind) = withoutUser a ++ behind := by
  have hfree : ∀ c ∈ behind.reverse, (c != '@') = true := by
    intro c hc
    rw [List.mem_reverse] at hc
    exact bne_iff_ne.2 fun heq => h (heq ▸ hc)
  rw [withoutUser, List.reverse_append, List.takeWhile_append_of_pos hfree, List.reverse_append,
    List.reverse_reverse, withoutUser]

variable {scheme : String} {a : List Char} {u : Url}

/-- An authority ends where the first character is that ends one. -/
theorem takeWhile_of_free (h : ∀ c ∈ a, endsAuthority true c = false) {tail : List Char}
    (htail : ∀ c ∈ tail.head?, endsAuthority true c = true) :
    (a ++ tail).takeWhile (fun c => !endsAuthority true c) = a := by
  rw [List.takeWhile_append_of_pos fun c hc => by simp [h c hc]]
  cases tail with
  | nil => simp
  | cons c tail => simp [htail c rfl]

/-- An authority with nothing behind it is read to its end. -/
theorem takeWhile_self_of_free (h : ∀ c ∈ a, endsAuthority true c = false) :
    a.takeWhile (fun c => !endsAuthority true c) = a :=
  List.takeWhile_eq_self_iff.2 fun c hc => by simp [h c hc]

/-- What follows an authority does not matter. -/
theorem ofAuthority?_append (h : ∀ c ∈ a, endsAuthority true c = false) {tail : List Char}
    (htail : ∀ c ∈ tail.head?, endsAuthority true c = true) :
    ofAuthority? scheme true (a ++ tail) = ofAuthority? scheme true a := by
  simp only [ofAuthority?, takeWhile_of_free h htail, takeWhile_self_of_free h]

/-- The URL of a host and perhaps a port. -/
def ofHost (scheme : String) (host : UrlHost) (port : Option Nat) : Url :=
  match port with
  | some n => withPort ⟨scheme, host, none⟩ n
  | none => ⟨scheme, host, none⟩

@[simp] theorem scheme_ofHost (scheme : String) (host : UrlHost) (port : Option Nat) :
    (ofHost scheme host port).scheme = scheme := by
  cases port <;> rfl

@[simp] theorem host_ofHost (scheme : String) (host : UrlHost) (port : Option Nat) :
    (ofHost scheme host port).host = host := by
  cases port <;> rfl

/-- The port is the one that is written. -/
theorem effectivePort?_ofHost (scheme : String) (host : UrlHost) (port : Option Nat) :
    (ofHost scheme host port).effectivePort? = port.or (defaultPort? scheme) := by
  cases port with
  | none => rfl
  | some n => exact effectivePort?_withPort _ n

private theorem scheme_of_ofAuthority? {special : Bool}
    (h : ofAuthority? scheme special a = some u) :
    u.scheme = scheme := by
  -- the two kinds of schemes differ in the host only
  cases special <;>
  · simp only [ofAuthority?, bind, pure, Option.bind_eq_some_iff, if_true, if_false,
      Bool.false_eq_true] at h
    obtain ⟨host, -, port, -, h⟩ := h
    rw [← Option.some.inj h]
    exact scheme_ofHost scheme host port

/-- An authority is a host and a port behind the user, if both can be read. -/
theorem ofAuthority?_eq_some_iff (h : ∀ c ∈ a, endsAuthority true c = false) :
    ofAuthority? scheme true a = some u ↔ ∃ host port,
      UrlHost.ofText? (splitHost false (withoutUser a)).1 = some host ∧
        port? (splitHost false (withoutUser a)).2 = some port ∧ ofHost scheme host port = u := by
  simp only [ofAuthority?, takeWhile_self_of_free h, if_true, bind, pure, Option.bind_eq_some_iff]
  refine exists_congr fun host => ?_
  constructor
  · rintro ⟨hhost, port, hport, hu⟩
    exact ⟨port, hhost, hport, Option.some.inj hu⟩
  · rintro ⟨port, hhost, hport, hu⟩
    exact ⟨hhost, port, hport, congrArg some hu⟩

/-- Behind the last separator lies what has none. -/
theorem append_cons_inj_of_not_mem {x : Char} {before before' behind behind' : List Char}
    (h : x ∉ behind) (h' : x ∉ behind') (heq : before ++ x :: behind = before' ++ x :: behind') :
    before = before' ∧ behind = behind' := by
  -- one front is a part of the other, and no further `x` lies between them
  rcases List.append_eq_append_iff.1 heq with ⟨more, rfl, hmore⟩ | ⟨more, rfl, hmore⟩
  · cases more with
    | nil => simpa using hmore
    | cons y more =>
      obtain ⟨-, rfl⟩ := List.cons_eq_cons.1 hmore
      exact absurd (by simp) h
  · cases more with
    | nil => simpa [eq_comm] using hmore
    | cons y more =>
      obtain ⟨-, rfl⟩ := List.cons_eq_cons.1 hmore
      exact absurd (by simp) h'

/-- Digits behind a colon are the port, as they are read in settings. -/
theorem port?_cons {d : Char} {ds : List Char} {port : Option Nat}
    (h : port? (some (d :: ds)) = some port) :
    (∀ c ∈ d :: ds, c.isDigit = true) ∧ port.isSome = true ∧
      Text.natOfBits? 16 (d :: ds) = port := by
  simp only [port?] at h
  split at h
  · next hdigits =>
    split at h
    · next hlt =>
      obtain rfl := Option.some.inj h
      refine ⟨by simpa using hdigits, rfl, ?_⟩
      -- a digit is no plus sign, so all of it is read
      have hplus : ∀ rest, d :: ds ≠ '+' :: rest := by
        rintro rest heq
        obtain ⟨rfl, -⟩ := List.cons_eq_cons.1 heq
        simp at hdigits
      unfold Text.natOfBits?
      split
      · next rest heq => exact absurd heq (hplus rest)
      · rw [if_neg (by simp [hdigits])]
        exact if_pos hlt
    · cases h
  · cases h

/-- Digits are not trimmed off. -/
theorem isEdge_of_isDigit {c : Char} (h : c.isDigit = true) : isEdge c = false := by
  simp only [Char.isDigit, Bool.and_eq_true, decide_eq_true_eq, UInt32.le_iff_toNat_le] at h
  have hlow : 48 ≤ c.toNat := h.1
  simp only [isEdge, decide_eq_false_iff_not]
  omega

/-- An authority ends in the last character of a host, in a colon or in a digit, but never in a
blank. -/
theorem exists_last_of_ofAuthority? (hfree : ∀ c ∈ a, endsAuthority true c = false)
    (h : ofAuthority? scheme true a = some u) :
    ∃ front last, a = front ++ [last] ∧ isEdge last = false := by
  obtain ⟨host, port, hhost, hport, -⟩ := (ofAuthority?_eq_some_iff hfree).1 h
  obtain ⟨user, huser⟩ := exists_append_withoutUser a
  have hsplit := splitHost_eq false (withoutUser a)
  generalize splitHost false (withoutUser a) = parts at hhost hport hsplit
  obtain ⟨hostText, portText⟩ := parts
  rw [huser, hsplit]
  -- the last character is of the host, the colon itself, or a digit of the port
  match portText, hport with
  | none, _ =>
    obtain rfl | ⟨front, last, rfl⟩ := List.eq_nil_or_concat hostText
    · exact absurd rfl (UrlHost.ne_nil_of_ofText? hhost)
    · rw [List.concat_eq_append] at hhost ⊢
      have hlast := UrlHost.lt_toNat_of_ofText? hhost
      exact ⟨user ++ front, last, by simp, by simpa [isEdge] using hlast⟩
  | some [], _ => exact ⟨user ++ hostText, ':', by simp, by decide⟩
  | some (d :: ds), hport =>
    obtain ⟨hdigits, -⟩ := port?_cons hport
    obtain hnil | ⟨front, last, hlast⟩ := List.eq_nil_or_concat (d :: ds)
    · cases hnil
    · rw [List.concat_eq_append] at hlast
      have hdigit : last.isDigit = true := hdigits last (by simp [hlast])
      exact ⟨user ++ hostText ++ ':' :: front, last, by simp [hlast], isEdge_of_isDigit hdigit⟩

/-- Where the last colon of an authority has something behind it that is no bracket at the end, it
is the one in front of the port. -/
theorem splitHost_of_append (hfree : ∀ c ∈ a, endsAuthority true c = false) {before ds : List Char}
    (ha : a = before ++ ':' :: ds) (hne : ds ≠ []) (hcolon : ':' ∉ ds) (hat : '@' ∉ ds)
    (hbracket : ']' ∉ ds) (h : ofAuthority? scheme true a = some u) :
    splitHost false (withoutUser a) = (withoutUser before, some ds) := by
  obtain ⟨host, port, hhost, hport, -⟩ := (ofAuthority?_eq_some_iff hfree).1 h
  have huser : withoutUser a = withoutUser before ++ ':' :: ds := by
    rw [ha, withoutUser_append (by simpa using hat)]
  have hsplit := splitHost_eq false (withoutUser a)
  rw [huser] at hsplit ⊢
  rw [huser] at hhost hport
  generalize splitHost false (withoutUser before ++ ':' :: ds) = parts at hhost hport hsplit ⊢
  obtain ⟨hostText, portText⟩ := parts
  match portText, hport with
  | none, _ =>
    -- the colon would be one inside brackets
    have hhostText : hostText = withoutUser before ++ ':' :: ds := by simpa using hsplit.symm
    obtain ⟨inside, hinside⟩ := UrlHost.eq_brackets_of_colon_mem hhost (by simp [hhostText])
    obtain rfl | ⟨front, last, rfl⟩ := List.eq_nil_or_concat ds
    · exact absurd rfl hne
    · rw [hhostText, List.concat_eq_append, ← List.cons_append, ← List.append_assoc,
        ← List.cons_append] at hinside
      obtain ⟨-, hlast⟩ := List.append_inj' hinside rfl
      obtain rfl := List.singleton_inj.1 hlast
      exact absurd (by simp) hbracket
  | some p, hport =>
    have hp : ':' ∉ p := by
      cases p with
      | nil => simp
      | cons d p => exact fun hmem => absurd ((port?_cons hport).1 ':' hmem) (by decide)
    obtain ⟨hbefore, rfl⟩ := append_cons_inj_of_not_mem hcolon hp hsplit
    rw [hbefore]

end Authority

/-! ## §4 Parts -/

/-- A character of a scheme. -/
def isSchemeChar (c : Char) : Bool := c.isAlphanum || c == '+' || c == '-' || c == '.'

/-- A slash of either kind. -/
def isSlash (c : Char) : Bool := c == '/' || c == '\\'

/-- A slash would end the authority. -/
theorem isSlash_of_free {c : Char} (h : endsAuthority true c = false) : isSlash c = false := by
  simp [endsAuthority] at h
  simp [isSlash, h]

/-- The parts of a URL whose scheme has a port of its own. -/
structure Parts where
  scheme : List Char
  slashes : List Char
  authority : List Char
  tail : List Char
  scheme_head : ∃ first ∈ scheme.head?, first.isAlpha = true
  scheme_chars : ∀ c ∈ scheme, isSchemeChar c = true
  scheme_special : (defaultPort? (String.ofList (scheme.map Char.toLower))).isSome = true
  slashes_chars : ∀ c ∈ slashes, isSlash c = true
  authority_ne_nil : authority ≠ []
  authority_free : ∀ c ∈ authority, endsAuthority true c = false
  tail_head : ∀ c ∈ tail.head?, endsAuthority true c = true

namespace Parts

/-- The name of the scheme. -/
def name (p : Parts) : String := String.ofList (p.scheme.map Char.toLower)

/-- All parts with the colon behind the scheme. -/
def text (p : Parts) : List Char := p.scheme ++ ':' :: (p.slashes ++ (p.authority ++ p.tail))

/-- The parts with nothing but the front of the tail. -/
def withTail (p : Parts) {front behind : List Char} (h : p.tail = front ++ behind) : Parts :=
  { p with
    tail := front
    tail_head := fun c hc => p.tail_head c (by
      cases front with
      | nil => cases hc
      | cons d front => simpa [h] using hc) }

/-- The text of parts with a shorter tail. -/
theorem text_withTail (p : Parts) {front behind : List Char} (h : p.tail = front ++ behind) :
    (p.withTail h).text = p.scheme ++ ':' :: (p.slashes ++ (p.authority ++ front)) := rfl

/-- The parts with this authority and nothing behind it. -/
def withAuthority (p : Parts) {front : List Char} (hne : front ≠ [])
    (hfree : ∀ c ∈ front, endsAuthority true c = false) : Parts :=
  { p with
    authority := front
    tail := []
    authority_ne_nil := hne
    authority_free := hfree
    tail_head := nofun }

/-- The text of parts with another authority. -/
theorem text_withAuthority (p : Parts) {front : List Char} (hne : front ≠ [])
    (hfree : ∀ c ∈ front, endsAuthority true c = false) :
    (p.withAuthority hne hfree).text = p.scheme ++ ':' :: (p.slashes ++ front) := by
  show p.scheme ++ ':' :: (p.slashes ++ (front ++ [])) = _
  rw [List.append_nil]

/-- The first colon of a URL is the one behind its scheme. -/
theorem colon_not_mem_scheme (p : Parts) : ':' ∉ p.scheme := fun h =>
  absurd (p.scheme_chars ':' h) (by decide)

end Parts

private theorem scheme?_eq (s : List Char) : scheme? s =
    match s.takeWhile isSchemeChar, s.dropWhile isSchemeChar with
    | first :: more, ':' :: rest =>
      if first.isAlpha then some ((first :: more).map Char.toLower, rest) else none
    | _, _ => none := rfl

private theorem scheme?_append {scheme : List Char}
    (hhead : ∃ first ∈ scheme.head?, first.isAlpha = true)
    (hchars : ∀ c ∈ scheme, isSchemeChar c = true) (rest : List Char) :
    scheme? (scheme ++ ':' :: rest) = some (scheme.map Char.toLower, rest) := by
  -- no colon is a character of a scheme, so the reading stops there
  have hcolon : isSchemeChar ':' = false := by decide
  rw [scheme?_eq, List.takeWhile_append_of_pos hchars, List.dropWhile_append_of_pos hchars,
    List.takeWhile_cons_of_neg (by simp [hcolon]), List.dropWhile_cons_of_neg (by simp [hcolon]),
    List.append_nil]
  obtain ⟨first, hfirst, halpha⟩ := hhead
  cases scheme with
  | nil => cases hfirst
  | cons c scheme =>
    obtain rfl := Option.some.inj hfirst
    exact if_pos halpha

private theorem exists_of_scheme? {s name rest : List Char} (h : scheme? s = some (name, rest)) :
    ∃ scheme, s = scheme ++ ':' :: rest ∧ name = scheme.map Char.toLower ∧
      (∃ first ∈ scheme.head?, first.isAlpha = true) ∧ ∀ c ∈ scheme, isSchemeChar c = true := by
  -- the scheme is as long as its characters go
  have hsplit : s = s.takeWhile isSchemeChar ++ s.dropWhile isSchemeChar :=
    List.takeWhile_append_dropWhile.symm
  have hchars : ∀ c ∈ s.takeWhile isSchemeChar, isSchemeChar c = true :=
    fun c hc => List.mem_takeWhile_imp hc
  rw [scheme?_eq] at h
  split at h
  · next first more rest' htake hdrop =>
    split at h
    · next halpha =>
      obtain ⟨rfl, rfl⟩ := Prod.mk.inj (Option.some.inj h)
      rw [htake, hdrop] at hsplit
      rw [htake] at hchars
      exact ⟨first :: more, hsplit, rfl, ⟨first, rfl, halpha⟩, hchars⟩
    · cases h
  · cases h

/-- Without a colon there is no URL. -/
theorem ofText?_eq_none {s : String} (h : ':' ∉ s.toList) : ofText? s = none := by
  have hscheme : scheme? (tidy s.toList) = none := by
    rw [Option.eq_none_iff_forall_ne_some]
    rintro ⟨name, rest⟩ hsome
    obtain ⟨scheme, htext, -⟩ := exists_of_scheme? hsome
    have hmem : ':' ∈ tidy s.toList := by simp [htext]
    exact h ((mem_tidy_iff (by decide)).1 hmem)
  rw [ofText?, hscheme]
  rfl

/-- Behind the slashes the authority begins. -/
theorem Parts.dropWhile_isSlash (p : Parts) :
    (p.slashes ++ (p.authority ++ p.tail)).dropWhile isSlash = p.authority ++ p.tail := by
  rw [List.dropWhile_append_of_pos p.slashes_chars]
  obtain ⟨first, rest, hauthority⟩ := List.exists_cons_of_ne_nil p.authority_ne_nil
  have hfirst : isSlash first = false :=
    isSlash_of_free (p.authority_free first (by simp [hauthority]))
  rw [hauthority, List.cons_append, List.dropWhile_cons_of_neg (by simp [hfirst])]

/-- Whom a URL contacts is said by its scheme and its authority. -/
theorem ofText?_eq_ofAuthority? {s : String} (p : Parts) (h : tidy s.toList = p.text) :
    ofText? s = ofAuthority? p.name true p.authority := by
  have hscheme := scheme?_append p.scheme_head p.scheme_chars (p.slashes ++ (p.authority ++ p.tail))
  have hspecial : (defaultPort? p.name).isSome = true := p.scheme_special
  rw [← ofAuthority?_append p.authority_free p.tail_head, ← p.dropWhile_isSlash]
  simp only [ofText?, h, Parts.text, hscheme]
  exact if_pos hspecial

/-- Whatever stands behind the slashes is cut in two where the authority ends. -/
private theorem exists_free_append (cs : List Char) : ∃ front tail, cs = front ++ tail ∧
    (∀ c ∈ front, endsAuthority true c = false) ∧
      ∀ c ∈ tail.head?, endsAuthority true c = true := by
  refine ⟨cs.takeWhile fun c => !endsAuthority true c, cs.dropWhile fun c => !endsAuthority true c,
    List.takeWhile_append_dropWhile.symm, fun c hc => ?_, fun c hc => ?_⟩
  · simpa using List.mem_takeWhile_imp hc
  · have hstop := List.head?_dropWhile_not (fun c => !endsAuthority true c) cs
    rw [Option.mem_def.1 hc] at hstop
    simpa using hstop

/-- A URL whose scheme has a port of its own has all these parts. -/
theorem exists_parts {s : String} {u : Url} (h : ofText? s = some u)
    (hspecial : (defaultPort? u.scheme).isSome = true) :
    ∃ p : Parts, tidy s.toList = p.text ∧ ofAuthority? p.name true p.authority = some u := by
  obtain ⟨⟨name, rest⟩, hscheme, h⟩ := Option.bind_eq_some_iff.1 h
  obtain ⟨scheme, htext, rfl, hhead, hchars⟩ := exists_of_scheme? hscheme
  dsimp only at h
  split at h
  · next hname =>
    -- the authority is what the slashes and the tail leave
    obtain ⟨front, tail, hbehind, hfree, htail⟩ := exists_free_append (rest.dropWhile isSlash)
    have hauthority :
        ofAuthority? (String.ofList (scheme.map Char.toLower)) true front = some u := by
      rw [← ofAuthority?_append hfree htail, ← hbehind]
      exact h
    have hne : front ≠ [] := by
      rintro rfl
      obtain ⟨_, last, hlast, -⟩ := exists_last_of_ofAuthority? hfree hauthority
      simp at hlast
    refine ⟨⟨scheme, rest.takeWhile isSlash, front, tail, hhead, hchars, hname,
      fun c hc => List.mem_takeWhile_imp hc, hne, hfree, htail⟩, ?_, hauthority⟩
    rw [htext, Parts.text, ← hbehind, List.takeWhile_append_dropWhile]
  · next hname =>
    exfalso
    split at h
    · cases h
    · split at h
      · rw [scheme_of_ofAuthority? h] at hspecial
        exact hname hspecial
      · cases h

/-! ## §5 The written port -/

/-- The authority of a URL whose scheme has a port of its own. -/
def authority (s : String) : List Char :=
  match scheme? (tidy s.toList) with
  | some (_, rest) => (rest.dropWhile isSlash).takeWhile fun c => !endsAuthority true c
  | none => []

/-- The port that stands behind the host of a URL. -/
def writtenPort? (s : String) : Option Nat :=
  (port? (splitHost false (withoutUser (authority s))).2).join

/-- The authority is the part of this name. -/
theorem authority_eq {s : String} (p : Parts) (h : tidy s.toList = p.text) :
    authority s = p.authority := by
  have hscheme := scheme?_append p.scheme_head p.scheme_chars (p.slashes ++ (p.authority ++ p.tail))
  simp only [authority, h, Parts.text, hscheme]
  rw [p.dropWhile_isSlash, takeWhile_of_free p.authority_free p.tail_head]

/-- A client contacts the port that is written, and that of the scheme if there is none. -/
theorem effectivePort?_eq {s : String} {u : Url} (h : ofText? s = some u)
    (hspecial : (defaultPort? u.scheme).isSome = true) :
    u.effectivePort? = (writtenPort? s).or (defaultPort? u.scheme) := by
  obtain ⟨p, hp, hu⟩ := exists_parts h hspecial
  obtain ⟨host, port, -, hport, rfl⟩ := (ofAuthority?_eq_some_iff p.authority_free).1 hu
  rw [effectivePort?_ofHost, writtenPort?, authority_eq p hp, hport, scheme_ofHost,
    Option.join_some]

/-! ## §6 Cutting off what does not matter -/

namespace Parts

variable {p : Parts} {u : Url}

/-- Slashes and blanks at the end are in the tail. -/
theorem exists_of_append (hu : ofAuthority? p.name true p.authority = some u)
    {front behind : List Char}
    (h : p.text = front ++ behind) (hbehind : ∀ c ∈ behind, isEdge c = true ∨ c = '/') :
    ∃ q : Parts, front = q.text ∧ q.name = p.name ∧ q.authority = p.authority := by
  obtain ⟨a, last, hlast, hedge⟩ := exists_last_of_ofAuthority? p.authority_free hu
  have hfree : endsAuthority true last = false := p.authority_free last (by simp [hlast])
  have hnot : last ∉ behind := by
    intro hmem
    rcases hbehind last hmem with hblank | rfl
    · rw [hblank] at hedge
      cases hedge
    · cases hfree
  have hsplit : (p.scheme ++ ':' :: (p.slashes ++ p.authority)) ++ p.tail = front ++ behind := by
    rw [← h, text]
    simp
  rcases List.append_eq_append_iff.1 hsplit with ⟨tail, rfl, htail⟩ | ⟨more, hmore, rfl⟩
  · exact ⟨p.withTail htail, by simp [text_withTail], rfl, rfl⟩
  · -- the last character of the authority is not cut off
    have hwhole : (p.scheme ++ ':' :: (p.slashes ++ a)) ++ [last] = front ++ more := by
      rw [← hmore, hlast]
      simp
    obtain rfl | ⟨more, x, rfl⟩ := List.eq_nil_or_concat more
    · have htail : p.tail = [] ++ p.tail := rfl
      rw [List.append_nil] at hmore
      exact ⟨p.withTail htail, by simp [text_withTail, ← hmore], rfl, rfl⟩
    · rw [List.concat_eq_append, ← List.append_assoc] at hwhole
      obtain ⟨-, hx⟩ := List.append_inj' hwhole rfl
      exact absurd (by simp [List.singleton_inj.1 hx]) hnot

/-- What names whom to contact is still there when slashes and blanks at the end are cut off. -/
theorem ofText?_of_append (hu : ofAuthority? p.name true p.authority = some u)
    {s behind : List Char}
    (h : p.text = tidy s ++ behind) (hbehind : ∀ c ∈ behind, isEdge c = true ∨ c = '/') :
    ofText? (String.ofList s) = some u := by
  obtain ⟨q, hq, hname, hauthority⟩ := exists_of_append hu h hbehind
  rw [ofText?_eq_ofAuthority? q (by simpa using hq), hname, hauthority, hu]

end Parts

end CodeIndex.Url
