import Mathlib.Data.List.TakeWhile
import Cutover.Database

/-! # What a masked URL shows of a password

In a URL with a password the password stands between the user's name and the first `@`.  The mask
takes the place of what stands behind the last colon in front of this `@` (`maskUrl_ofList`).  A
colon is legal in a password, so this colon may belong to the password itself; then the mask shows
the password up to there (`Password.exposed`).  It shows that much and no more: two passwords are
masked alike exactly when they are the same up to their last colons, and then nothing else that is
told of the database tells them apart (`Login.mask_exposes_up_to_last_colon`).
-/

namespace Cutover

/-! ## The last colon -/

theorem dropWhile_append_colon {s t : List Char} (ht : ':' ∉ t) :
    (t.reverse ++ ':' :: s).dropWhile (· ≠ ':') = ':' :: s := by
  have hbefore : ∀ c ∈ t.reverse, decide (c ≠ ':') = true := by
    intro c hc
    rw [decide_eq_true_iff]
    rintro rfl
    exact ht (List.mem_reverse.mp hc)
  rw [List.dropWhile_append_of_pos hbefore]
  rfl

theorem splitAtLastColon_append {s t : List Char} (ht : ':' ∉ t) :
    splitAtLastColon (s ++ ':' :: t) = some (s ++ [':'], ':' :: t) := by
  have hreverse : (s ++ ':' :: t).reverse.dropWhile (· ≠ ':') = ':' :: s.reverse := by
    rw [List.reverse_append, List.reverse_cons, List.append_assoc, List.singleton_append]
    exact dropWhile_append_colon ht
  have hdrop : (s ++ ':' :: t).drop (s.length + 1) = t := by
    rw [List.drop_length_add_append]
    rfl
  rw [splitAtLastColon, hreverse]
  simp [hdrop]

/-- **The mask stands between the last colon and the first `@` behind it**, unless that colon
announces the host. -/
theorem maskUrl_ofList {s t rest : List Char} (hs : '@' ∉ s) (ht : '@' ∉ t) (hcolon : ':' ∉ t)
    (hhost : ∀ c ∈ t, c ≠ '/') :
    maskUrl (String.ofList (s ++ ':' :: t ++ '@' :: rest)) =
      String.ofList (s ++ ':' :: "****".toList ++ '@' :: rest) := by
  have hfront : (s ++ ':' :: t ++ '@' :: rest).takeWhile (· ≠ '@') = s ++ ':' :: t := by
    have hbefore : ∀ c ∈ s ++ ':' :: t, decide (c ≠ '@') = true := by
      intro c hc
      rw [decide_eq_true_iff]
      rintro rfl
      rcases List.mem_append.mp hc with hc | hc
      · exact hs hc
      · rcases List.mem_cons.mp hc with hc | hc
        · cases hc
        · exact ht hc
    rw [List.takeWhile_append_of_pos hbefore]
    simp
  have hannounces : "://".toList.isPrefixOf (':' :: t ++ '@' :: rest) = false := by
    cases t with
    | nil => rfl
    | cons c t =>
      have hc : ('/' == c) = false := by
        rw [beq_eq_false_iff_ne]
        exact fun h => hhost c List.mem_cons_self h.symm
      simp [List.isPrefixOf, hc]
  rw [maskUrl]
  simp only [String.toList_ofList, hfront, List.drop_left, splitAtLastColon_append hcolon,
    hannounces]
  simp

/-! ## Passwords -/

/-- The characters that may stand in the part of a URL that names the user, without being
escaped. -/
def isUserinfo (c : Char) : Bool := c.isAlphanum || "-._~!$&'()*+,;=:%".toList.contains c

/-- A password that stands in a URL as it is. -/
structure Password where
  text : String
  nonempty : text ≠ ""
  legal : ∀ c ∈ text.toList, isUserinfo c = true

namespace Password

/-- What the mask shows of a password: the part up to its last colon. -/
def exposed (p : Password) : String :=
  String.ofList (p.text.toList.reverse.dropWhile (· ≠ ':')).reverse

variable (p : Password)

theorem ne_of_mem {c : Char} (hc : c ∈ p.text.toList) : c ≠ '/' ∧ c ≠ '@' := by
  have hlegal := p.legal c hc
  constructor <;>
  · rintro rfl
    exact absurd hlegal (by decide)

variable {p}

theorem exposed_of_colon {s t : List Char} (htext : p.text.toList = s ++ ':' :: t) (ht : ':' ∉ t) :
    p.exposed = String.ofList (s ++ [':']) := by
  have hreverse : p.text.toList.reverse = t.reverse ++ ':' :: s.reverse := by
    rw [htext, List.reverse_append, List.reverse_cons, List.append_assoc, List.singleton_append]
  rw [exposed, hreverse, dropWhile_append_colon ht, List.reverse_cons, List.reverse_reverse]

/-- Of a password without a colon nothing is shown. -/
theorem exposed_eq_empty_iff : p.exposed = "" ↔ ':' ∉ p.text.toList := by
  rw [exposed, String.ofList_eq_empty_iff, List.reverse_eq_nil_iff, List.dropWhile_eq_nil_iff]
  constructor
  · intro h hcolon
    exact absurd (h ':' (List.mem_reverse.mpr hcolon)) (by decide)
  · intro h c hc
    rw [decide_eq_true_iff]
    rintro rfl
    exact h (List.mem_reverse.mp hc)

/-- A password has no colon, or it falls apart at its last one. -/
theorem exposed_cases (p : Password) :
    (':' ∉ p.text.toList ∧ p.exposed = "") ∨
      ∃ s t, p.text.toList = s ++ ':' :: t ∧ ':' ∉ t ∧ p.exposed = String.ofList (s ++ [':']) := by
  by_cases hcolon : ':' ∈ p.text.toList
  · obtain ⟨t, s, hreverse, ht⟩ := List.eq_append_cons_of_mem (List.mem_reverse.mpr hcolon)
    have htext : p.text.toList = s.reverse ++ ':' :: t.reverse := by
      rw [← List.reverse_reverse p.text.toList, hreverse]
      simp
    have ht' : ':' ∉ t.reverse := fun h => ht (List.mem_reverse.mp h)
    exact .inr ⟨s.reverse, t.reverse, htext, ht', exposed_of_colon htext ht'⟩
  · exact .inl ⟨hcolon, exposed_eq_empty_iff.mpr hcolon⟩

end Password

/-! ## URLs with a password -/

/-- A URL that names a user, but for the password. -/
structure Login where
  scheme : String
  user : String
  /-- What stands behind the `@`: host, port, path and query. -/
  rest : String
  scheme_plain : ∀ c ∈ scheme.toList, c ≠ ':' ∧ c ≠ '@'
  user_plain : ∀ c ∈ user.toList, c ≠ ':' ∧ c ≠ '/' ∧ c ≠ '@'

namespace Login

/-- The URL with its password. -/
def url (l : Login) (p : Password) : String :=
  l.scheme ++ "://" ++ l.user ++ ":" ++ p.text ++ "@" ++ l.rest

/-- The characters in front of the password, but for the colon that announces it. -/
def front (l : Login) : List Char := l.scheme.toList ++ "://".toList ++ l.user.toList

variable (l : Login) (p q : Password)

theorem url_eq :
    l.url p = String.ofList (l.front ++ ':' :: p.text.toList ++ '@' :: l.rest.toList) := by
  apply String.toList_inj.mp
  simp [url, front]

theorem at_not_mem_front : '@' ∉ l.front := by
  intro h
  rcases List.mem_append.mp h with h | h
  · rcases List.mem_append.mp h with h | h
    · exact (l.scheme_plain _ h).2 rfl
    · exact absurd h (by decide)
  · exact (l.user_plain _ h).2.2 rfl

/-- **The mask shows a password up to its last colon.** -/
theorem maskUrl_url :
    maskUrl (l.url p) = l.scheme ++ "://" ++ l.user ++ ":" ++ p.exposed ++ "****@" ++ l.rest := by
  have hat : ∀ c ∈ p.text.toList, c ≠ '@' := fun c hc => (p.ne_of_mem hc).2
  have hslash : ∀ c ∈ p.text.toList, c ≠ '/' := fun c hc => (p.ne_of_mem hc).1
  rw [url_eq]
  rcases p.exposed_cases with ⟨hcolon, hexposed⟩ | ⟨s, t, htext, ht, hexposed⟩
  · rw [maskUrl_ofList l.at_not_mem_front (fun h => hat _ h rfl) hcolon hslash, hexposed]
    apply String.toList_inj.mp
    simp [front]
  · rw [htext] at hat hslash
    have hs : '@' ∉ l.front ++ ':' :: s := by
      intro h
      rcases List.mem_append.mp h with h | h
      · exact l.at_not_mem_front h
      · rcases List.mem_cons.mp h with h | h
        · cases h
        · exact hat _ (List.mem_append_left _ h) rfl
    have ht' : ∀ c ∈ t, c ∈ s ++ ':' :: t := fun c hc =>
      List.mem_append_right _ (List.mem_cons_of_mem _ hc)
    have hsplit : l.front ++ ':' :: p.text.toList ++ '@' :: l.rest.toList =
        (l.front ++ ':' :: s) ++ ':' :: t ++ '@' :: l.rest.toList := by
      rw [htext]
      simp
    rw [hsplit, maskUrl_ofList hs (fun h => hat _ (ht' _ h) rfl) ht (fun c hc =>
      hslash c (ht' c hc)), hexposed]
    apply String.toList_inj.mp
    simp [front]

/-- The scheme alone tells the dialect. -/
theorem ofUrl?_url : Dialect.ofUrl? (l.url p) = Dialect.ofUrl? (l.url q) := by
  have hscheme : ∀ p : Password, (l.url p).toList.takeWhile (· ≠ ':') = l.scheme.toList := by
    intro p
    have hbefore : ∀ c ∈ l.scheme.toList, decide (c ≠ ':') = true := by
      intro c hc
      rw [decide_eq_true_iff]
      exact (l.scheme_plain c hc).1
    have hurl : (l.url p).toList = l.scheme.toList ++ ':' :: '/' :: '/' ::
        (l.user.toList ++ ':' :: p.text.toList ++ '@' :: l.rest.toList) := by
      simp [url]
    rw [hurl, List.takeWhile_append_of_pos hbefore]
    simp
  rw [Dialect.ofUrl?, Dialect.ofUrl?, hscheme p, hscheme q]

/-- **A masked URL shows its password up to the last colon, and nothing else of it.**  So of a
password without a colon nothing is shown, and what is shown of others is all that two of them can
be told apart by, be it in the mask or in what the database with this URL is said to be or to
lack. -/
theorem mask_exposes_up_to_last_colon (d : Database) :
    maskUrl (l.url p) = l.scheme ++ "://" ++ l.user ++ ":" ++ p.exposed ++ "****@" ++ l.rest ∧
      (p.exposed = "" ↔ ':' ∉ p.text.toList) ∧
      (maskUrl (l.url p) = maskUrl (l.url q) ↔ p.exposed = q.exposed) ∧
      (({ d with url := l.url p }.masked = { d with url := l.url q }.masked ∧
        { d with url := l.url p }.dialect = { d with url := l.url q }.dialect) ↔
        p.exposed = q.exposed) := by
  have hsame : maskUrl (l.url p) = maskUrl (l.url q) ↔ p.exposed = q.exposed := by
    rw [maskUrl_url, maskUrl_url]
    constructor
    · intro h
      have hlists := congrArg String.toList h
      apply String.toList_inj.mp
      simpa using hlists
    · intro h
      rw [h]
  refine ⟨l.maskUrl_url p, Password.exposed_eq_empty_iff, hsame, ?_⟩
  constructor
  · exact fun h => hsame.mp h.1
  · intro h
    have hmask := hsame.mpr h
    refine ⟨hmask, ?_⟩
    simp only [Database.dialect, Database.masked, l.ofUrl?_url p q, hmask]

/-- A user of a database on this machine. -/
def onLocalhost : Login := ⟨"postgres", "user", "localhost/db", by simp, by simp⟩

/-- **A password is not always hidden**: of one with a colon the front is shown. -/
theorem mask_exposes_front_of_password :
    ¬ ∀ (l : Login) (p q : Password), maskUrl (l.url p) = maskUrl (l.url q) ∧
      maskUrl (l.url p) = l.scheme ++ "://" ++ l.user ++ ":****@" ++ l.rest := by
  intro hall
  let password : Password := ⟨"pa:ss", by decide, by simp [isUserinfo]⟩
  have hhidden := (hall onLocalhost password password).2
  exact absurd hhidden (by decide +kernel)

end Login
end Cutover
