-- SUMMARY: What a type is spelled as can be read in one way only, up to the namespaces of its names.
import TypeStyle.Proofs.Types.Namespaces
import TypeStyle.Proofs.Types.Nameless

/-! # Reading a type back

A spelled type is read from left to right. First comes a word, which a tuple does not have; then
the types in brackets, if there are any; then the suffixes `[]` and `?`. Each of these ends where
the next character cannot continue it, so the reading is the same whatever follows the type, if
only it follows one in a list: a comma or a closing bracket. -/

namespace TypeStyle

namespace Ty

/-! ## Words -/

/-- The characters of a written type that are not in a word. -/
def delimiters : List Char := ['<', '>', '(', ')', '[', ']', '?', ',', ' ']

/-- What can stand behind a type in a list of types. -/
def closers : List Char := ['>', ')', ',']

/-- What can stand behind the word of a type and the types in brackets. -/
def followers : List Char := '[' :: '?' :: closers

/-- The text is empty or begins with one of the characters. -/
def StartsIn (cs text : List Char) : Prop := ∀ c ∈ text.head?, c ∈ cs

theorem StartsIn.mono {cs cs' text : List Char} (h : StartsIn cs text) (hsub : cs ⊆ cs') :
    StartsIn cs' text :=
  fun c hc => hsub (h c hc)

theorem startsIn_cons {c : Char} {cs text : List Char} : StartsIn cs (c :: text) ↔ c ∈ cs := by
  simp [StartsIn]

/-- A name that is neither a keyword nor has a delimiter in it, as identifiers do not. -/
structure IsWord (name : String) : Prop where
  ne_empty : name ≠ ""
  not_keyword : name ∉ TypeExpr.keywords
  no_delimiter : ∀ c ∈ name.toList, c ∉ delimiters

theorem isWord_of_identifier {name : String} (hne : name ≠ "")
    (hkeyword : name ∉ TypeExpr.keywords)
    (hchars : ∀ c ∈ name.toList, c.isAlphanum = true ∨ c = '_') : IsWord name where
  ne_empty := hne
  not_keyword := hkeyword
  no_delimiter c hc hdelimiter := by
    have hall : delimiters.all (fun d => !(d.isAlphanum || d == '_')) = true := by decide
    have hneither : c.isAlphanum = false ∧ c ≠ '_' := by
      simpa using List.all_eq_true.mp hall c hdelimiter
    rcases hchars c hc with halphanum | hunderscore
    · exact absurd halphanum (by simp [hneither.1])
    · exact hneither.2 hunderscore

/-- A word ends at the first delimiter. -/
theorem word_inj {w w' r r' : List Char} (hw : ∀ c ∈ w, c ∉ delimiters)
    (hw' : ∀ c ∈ w', c ∉ delimiters) (hr : StartsIn delimiters r) (hr' : StartsIn delimiters r')
    (h : w ++ r = w' ++ r') : w = w' ∧ r = r' := by
  induction w generalizing w' with
  | nil =>
    cases w' with
    | nil => exact ⟨rfl, h⟩
    | cons c w' =>
      rw [List.nil_append] at h
      rw [h] at hr
      exact absurd (startsIn_cons.mp hr) (hw' c List.mem_cons_self)
  | cons c w ih =>
    cases w' with
    | nil =>
      rw [List.nil_append] at h
      rw [← h] at hr'
      exact absurd (startsIn_cons.mp hr') (hw c List.mem_cons_self)
    | cons c' w' =>
      obtain ⟨rfl, htail⟩ := List.cons.inj h
      obtain ⟨rfl, rfl⟩ := ih (List.forall_mem_cons.mp hw).2 (List.forall_mem_cons.mp hw').2 htail
      exact ⟨rfl, rfl⟩

/-! ## Suffixes -/

inductive Suffix where
  | array
  | nullable

def Suffix.chars : Suffix → List Char
  | array => ['[', ']']
  | nullable => ['?']

def Suffix.wrap (inner : Ty) : Suffix → Ty
  | array => .array inner
  | nullable => .nullable inner

/-- The type without the suffixes after it. -/
def core : Ty → Ty
  | array element => core element
  | nullable inner => core inner
  | ty => ty

def suffixes : Ty → List Suffix
  | array element => suffixes element ++ [.array]
  | nullable inner => suffixes inner ++ [.nullable]
  | _ => []

theorem foldl_wrap_core (ty : Ty) : ty.suffixes.foldl Suffix.wrap ty.core = ty := by
  match ty with
  | .array element => simp [suffixes, core, Suffix.wrap, foldl_wrap_core element]
  | .nullable inner => simp [suffixes, core, Suffix.wrap, foldl_wrap_core inner]
  | .predefined _ | .named _ _ _ | .tuple _ | .dynamic | .anonymous | .error =>
    simp [suffixes, core]

theorem toList_text (ty : Ty) :
    ty.text.toList = ty.core.text.toList ++ ty.suffixes.flatMap Suffix.chars := by
  match ty with
  | .array element => simp [text, suffixes, core, Suffix.chars, toList_text element]
  | .nullable inner => simp [text, suffixes, core, Suffix.chars, toList_text inner]
  | .predefined _ | .named _ _ _ | .tuple _ | .dynamic | .anonymous | .error =>
    simp [suffixes, core]

theorem startsIn_suffixes (ss : List Suffix) {r : List Char} (hr : StartsIn closers r) :
    StartsIn followers (ss.flatMap Suffix.chars ++ r) := by
  cases ss with
  | nil => exact hr.mono (by decide)
  | cons s ss =>
    cases s <;> rw [List.flatMap_cons, Suffix.chars, List.append_assoc, List.cons_append] <;>
      exact startsIn_cons.mpr (by decide)

/-- The suffixes end at the first character that begins none. -/
theorem suffixes_inj {ss ss' : List Suffix} {r r' : List Char} (hr : StartsIn closers r)
    (hr' : StartsIn closers r')
    (h : ss.flatMap Suffix.chars ++ r = ss'.flatMap Suffix.chars ++ r') : ss = ss' ∧ r = r' := by
  have hstops : ∀ (s : Suffix) (ss : List Suffix) (r r' : List Char), StartsIn closers r →
      r ≠ (s :: ss).flatMap Suffix.chars ++ r' := by
    rintro s ss r r' hr rfl
    cases s <;> simp [Suffix.chars, startsIn_cons, closers] at hr
  induction ss generalizing ss' with
  | nil =>
    cases ss' with
    | nil => exact ⟨rfl, h⟩
    | cons s ss' => exact absurd h (hstops s ss' r r' hr)
  | cons s ss ih =>
    cases ss' with
    | nil => exact absurd h.symm (hstops s ss r' r hr')
    | cons s' ss' =>
      rw [List.flatMap_cons, List.flatMap_cons, List.append_assoc, List.append_assoc] at h
      cases s <;> cases s'
      · obtain ⟨rfl, rfl⟩ := ih (List.append_cancel_left h)
        exact ⟨rfl, rfl⟩
      · simp [Suffix.chars] at h
      · simp [Suffix.chars] at h
      · obtain ⟨rfl, rfl⟩ := ih (List.append_cancel_left h)
        exact ⟨rfl, rfl⟩

/-! ## Types that can be read -/

mutual

/-- Every part of the type has a name, and the named types in it have words as names, in the
    global namespace. -/
def Readable : Ty → Prop
  | named space name args => space = none ∧ IsWord name ∧ ReadableList args
  | array element => Readable element
  | nullable inner => Readable inner
  | tuple elements => ReadableList elements
  | predefined _ | dynamic => True
  | anonymous | error => False

def ReadableList : List Ty → Prop
  | [] => True
  | ty :: tys => Readable ty ∧ ReadableList tys

end

mutual

theorem readable_withoutNamespaces (ty : Ty) (h : ty.isNameable = true)
    (hwords : ∀ part ∈ ty.namedParts, IsWord part.2) : ty.withoutNamespaces.Readable := by
  match ty with
  | .named space name args =>
    obtain ⟨hword, hargs⟩ := List.forall_mem_cons.mp hwords
    exact ⟨rfl, hword, readableList_withoutNamespacesList args h hargs⟩
  | .array element => exact readable_withoutNamespaces element h hwords
  | .nullable inner => exact readable_withoutNamespaces inner h hwords
  | .tuple elements => exact readableList_withoutNamespacesList elements h hwords
  | .predefined _ | .dynamic => trivial
  | .anonymous | .error => cases h

theorem readableList_withoutNamespacesList (tys : List Ty) (h : areNameable tys = true)
    (hwords : ∀ part ∈ namedPartsList tys, IsWord part.2) :
    ReadableList (withoutNamespacesList tys) := by
  match tys with
  | [] => trivial
  | ty :: tys =>
    rw [areNameable, Bool.and_eq_true] at h
    rw [namedPartsList, List.forall_mem_append] at hwords
    exact ⟨readable_withoutNamespaces ty h.1 hwords.1,
      readableList_withoutNamespacesList tys h.2 hwords.2⟩

end

/-- A type without suffixes that can be read. -/
inductive Core : Ty → Prop
  | predefined (p : Predefined) : Core (.predefined p)
  | dynamic : Core .dynamic
  | named {name : String} {args : List Ty} :
      IsWord name → ReadableList args → Core (.named none name args)
  | tuple {elements : List Ty} : ReadableList elements → Core (.tuple elements)

theorem Readable.core {ty : Ty} (h : ty.Readable) : Core ty.core := by
  match ty with
  | .array element =>
    have helement : element.Readable := h
    exact helement.core
  | .nullable inner =>
    have hinner : inner.Readable := h
    exact hinner.core
  | .predefined p => exact .predefined p
  | .dynamic => exact .dynamic
  | .named space name args =>
    obtain ⟨rfl, hword, hargs⟩ := h
    exact .named hword hargs
  | .tuple elements => exact .tuple h
  | .anonymous | .error => cases h

/-! ## The parts of a core -/

/-- The word at the beginning of a core. -/
def word : Ty → String
  | predefined p => p.keyword
  | dynamic => "dynamic"
  | named _ name _ => name
  | _ => ""

/-- The types in brackets of a core, with the brackets. -/
def brackets : Ty → List Char
  | named _ _ [] => []
  | named _ _ args => '<' :: (textList args).toList ++ ['>']
  | tuple elements => '(' :: (textList elements).toList ++ [')']
  | _ => []

theorem brackets_cons (space : Option String) (name : String) (u : Ty) (us : List Ty)
    (r : List Char) : (Ty.named space name (u :: us)).brackets ++ r =
      '<' :: ((textList (u :: us)).toList ++ '>' :: r) := by
  simp [brackets]

theorem keyword_mem_keywords (p : Predefined) : p.keyword ∈ TypeExpr.keywords := by
  cases p <;> decide

theorem mem_keywords_of_keywordType? {name : String} {ty : Ty}
    (h : Facts.keywordType? name = some ty) : name ∈ TypeExpr.keywords := by
  unfold Facts.keywordType? at h
  split at h
  · next hname =>
    rw [hname]
    decide
  · obtain ⟨p, hp, -⟩ := Option.map_eq_some_iff.mp h
    have hkeyword : p.keyword = name := by simpa using List.find?_some hp
    rw [← hkeyword]
    exact keyword_mem_keywords p

namespace Core

variable {c d : Ty}

theorem toList_text (h : Core c) : c.text.toList = c.word.toList ++ c.brackets := by
  cases h with
  | predefined p => simp [text, word, brackets]
  | dynamic => simp [text, word, brackets]
  | @named name args _ _ => cases args <;> simp [text, word, brackets]
  | tuple _ => simp [text, word, brackets]

theorem no_delimiter (h : Core c) : ∀ x ∈ c.word.toList, x ∉ delimiters := by
  cases h with
  | predefined p => cases p <;> simp [word, Predefined.keyword, delimiters]
  | dynamic => simp [word, delimiters]
  | named hword _ => exact hword.no_delimiter
  | tuple _ => simp [word]

theorem startsIn_brackets (c : Ty) {r : List Char} (hr : StartsIn followers r) :
    StartsIn delimiters (c.brackets ++ r) := by
  have hfollowers : followers ⊆ delimiters := by decide
  unfold brackets
  split
  · exact hr.mono hfollowers
  · exact startsIn_cons.mpr (by decide)
  · exact startsIn_cons.mpr (by decide)
  · exact hr.mono hfollowers

/-- A keyword stands for itself. -/
theorem eq_of_keywordType? (h : Core d) (hkey : Facts.keywordType? d.word = some c) :
    c = d := by
  cases h with
  | predefined p =>
    rw [word, Facts.keywordType?_keyword] at hkey
    exact (Option.some.inj hkey).symm
  | dynamic => exact (Option.some.inj hkey).symm
  | named hword _ => exact absurd (mem_keywords_of_keywordType? hkey) hword.not_keyword
  | tuple _ => cases hkey

/-- A core begins with a word or with an opening bracket. -/
theorem not_startsIn_closers (h : Core c) (r : List Char) :
    ¬ StartsIn closers (c.text.toList ++ r) := by
  cases h with
  | predefined p => cases p <;> simp [text, Predefined.keyword, startsIn_cons, closers]
  | dynamic => simp [text, startsIn_cons, closers]
  | @named name args hword _ =>
    have hne : name.toList ≠ [] := fun heq => hword.ne_empty (String.toList_eq_nil_iff.mp heq)
    obtain ⟨x, xs, hname⟩ := List.exists_cons_of_ne_nil hne
    have hx : x ∉ delimiters := hword.no_delimiter x (hname ▸ List.mem_cons_self)
    have hclosers : closers ⊆ delimiters := by decide
    simp only [text, Option.map_none, Option.getD_none, String.empty_append, String.toList_append,
      hname, List.cons_append, startsIn_cons]
    exact fun hmem => hx (hclosers hmem)
  | tuple _ => simp [text, startsIn_cons, closers]

theorem split (hc : Core c) (hd : Core d) {r r' : List Char} (hr : StartsIn followers r)
    (hr' : StartsIn followers r') (h : c.text.toList ++ r = d.text.toList ++ r') :
    c.word = d.word ∧ c.brackets ++ r = d.brackets ++ r' := by
  rw [hc.toList_text, hd.toList_text, List.append_assoc, List.append_assoc] at h
  obtain ⟨hword, hrest⟩ := word_inj hc.no_delimiter hd.no_delimiter (startsIn_brackets c hr)
    (startsIn_brackets d hr') h
  exact ⟨String.toList_inj.mp hword, hrest⟩

end Core

/-! ## What reading means -/

/-- Whatever follows, the core can be told from other cores. -/
def ReadsCore (c : Ty) : Prop :=
  ∀ (d : Ty) (r r' : List Char), Core d → StartsIn followers r → StartsIn followers r' →
    c.text.toList ++ r = d.text.toList ++ r' → c = d ∧ r = r'

/-- Whatever follows in a list, the type can be told from other types. -/
def Reads (ty : Ty) : Prop :=
  ∀ (ty' : Ty) (r r' : List Char), ty'.Readable → StartsIn closers r → StartsIn closers r' →
    ty.text.toList ++ r = ty'.text.toList ++ r' → ty = ty' ∧ r = r'

theorem reads_of_core {ty : Ty} (h : ReadsCore ty.core) : Reads ty := by
  intro ty' r r' hty' hr hr' heq
  rw [toList_text ty, toList_text ty', List.append_assoc, List.append_assoc] at heq
  obtain ⟨hcore, hrest⟩ := h _ _ _ hty'.core (startsIn_suffixes _ hr) (startsIn_suffixes _ hr') heq
  obtain ⟨hsuffixes, rfl⟩ := suffixes_inj hr hr' hrest
  refine ⟨?_, rfl⟩
  rw [← foldl_wrap_core ty, hcore, hsuffixes, foldl_wrap_core]

/-! ## Reading lists -/

/-- What stands behind the first type of a list. -/
def more (tys : List Ty) : List Char := tys.flatMap fun ty => ',' :: ' ' :: ty.text.toList

theorem more_cons (ty : Ty) (tys : List Ty) :
    more (ty :: tys) = ',' :: ' ' :: (ty.text.toList ++ more tys) := by
  simp [more]

theorem toList_textList_cons (ty : Ty) (tys : List Ty) :
    (textList (ty :: tys)).toList = ty.text.toList ++ more tys := by
  induction tys generalizing ty with
  | nil => simp [textList, more]
  | cons u tys ih => simp [textList, more_cons, ih u]

section

variable {close : Char} {tys tys' : List Ty} {r r' : List Char}

theorem startsIn_more (hclose : close ∈ closers) (tys : List Ty) (r : List Char) :
    StartsIn closers (more tys ++ close :: r) := by
  cases tys with
  | nil => exact startsIn_cons.mpr hclose
  | cons ty tys => exact startsIn_cons.mpr (by decide)

theorem more_inj (hclose : close ∈ closers) (hcomma : close ≠ ',') (hreads : ∀ ty ∈ tys, Reads ty)
    (htys' : ReadableList tys') (h : more tys ++ close :: r = more tys' ++ close :: r') :
    tys = tys' ∧ r = r' := by
  induction tys generalizing tys' with
  | nil =>
    cases tys' with
    | nil => exact ⟨rfl, (List.cons.inj h).2⟩
    | cons ty' tys' => exact absurd (List.cons.inj h).1 hcomma
  | cons ty tys ih =>
    cases tys' with
    | nil => exact absurd (List.cons.inj h).1.symm hcomma
    | cons ty' tys' =>
      simp only [more_cons, List.cons_append, List.append_assoc, List.cons.injEq, true_and] at h
      obtain ⟨hty, hreads⟩ := List.forall_mem_cons.mp hreads
      obtain ⟨rfl, hrest⟩ := hty ty' _ _ htys'.1 (startsIn_more hclose tys r)
        (startsIn_more hclose tys' r') h
      obtain ⟨rfl, rfl⟩ := ih hreads htys'.2 hrest
      exact ⟨rfl, rfl⟩

/-- A list of types that can be read can be read up to its bracket. -/
theorem textList_inj (hclose : close = '>' ∨ close = ')') (hreads : ∀ ty ∈ tys, Reads ty)
    (htys : ReadableList tys) (htys' : ReadableList tys')
    (h : (textList tys).toList ++ close :: r = (textList tys').toList ++ close :: r') :
    tys = tys' ∧ r = r' := by
  have hcloser : close ∈ closers := by rcases hclose with rfl | rfl <;> decide
  have hcomma : close ≠ ',' := by rcases hclose with rfl | rfl <;> decide
  have hnil : ∀ {ty : Ty} {tys : List Ty} {r r' : List Char}, ty.Readable →
      close :: r ≠ (textList (ty :: tys)).toList ++ r' := by
    intro ty tys r r' hty heq
    rw [toList_textList_cons, toList_text, List.append_assoc, List.append_assoc] at heq
    exact hty.core.not_startsIn_closers _ (heq ▸ startsIn_cons.mpr hcloser)
  cases tys with
  | nil =>
    cases tys' with
    | nil => exact ⟨rfl, (List.cons.inj h).2⟩
    | cons ty' tys' => exact absurd h (hnil htys'.1)
  | cons ty tys =>
    cases tys' with
    | nil => exact absurd h.symm (hnil htys.1)
    | cons ty' tys' =>
      rw [toList_textList_cons, toList_textList_cons, List.append_assoc, List.append_assoc] at h
      obtain ⟨hty, hreads⟩ := List.forall_mem_cons.mp hreads
      obtain ⟨rfl, hmore⟩ := hty ty' _ _ htys'.1 (startsIn_more hcloser tys r)
        (startsIn_more hcloser tys' r') h
      obtain ⟨rfl, rfl⟩ := more_inj hcloser hcomma hreads htys'.2 hmore
      exact ⟨rfl, rfl⟩

end

/-! ## Reading types -/

namespace Core

theorem reads_keyword {c : Ty} (hc : Core c) (hkey : Facts.keywordType? c.word = some c) :
    ReadsCore c := by
  intro d r r' hd hr hr' heq
  obtain ⟨hword, hrest⟩ := hc.split hd hr hr' heq
  obtain rfl := hd.eq_of_keywordType? (hword ▸ hkey)
  exact ⟨rfl, List.append_cancel_left hrest⟩

theorem reads_named {name : String} {args : List Ty} (hname : IsWord name)
    (hargs : ReadableList args) (hreads : ∀ arg ∈ args, Reads arg) :
    ReadsCore (.named none name args) := by
  intro d r r' hd hr hr' heq
  obtain ⟨hword, hrest⟩ := (Core.named hname hargs).split hd hr hr' heq
  have hopen : ∀ {text rest : List Char}, StartsIn followers text → text ≠ '<' :: rest := by
    rintro text rest htext rfl
    exact absurd (startsIn_cons.mp htext) (by decide)
  cases hd with
  | predefined q =>
    obtain rfl : name = q.keyword := hword
    exact absurd (keyword_mem_keywords q) hname.not_keyword
  | dynamic =>
    obtain rfl : name = "dynamic" := hword
    exact absurd (by decide) hname.not_keyword
  | tuple _ => exact absurd hword hname.ne_empty
  | @named name' args' _ hargs' =>
    obtain rfl : name = name' := hword
    match args, args' with
    | [], [] => exact ⟨rfl, hrest⟩
    | [], u :: us =>
      rw [brackets_cons] at hrest
      exact absurd hrest (hopen hr)
    | u :: us, [] =>
      rw [brackets_cons] at hrest
      exact absurd hrest.symm (hopen hr')
    | u :: us, u' :: us' =>
      rw [brackets_cons, brackets_cons] at hrest
      obtain ⟨hsame, rfl⟩ := textList_inj (.inl rfl) hreads hargs hargs' (List.cons.inj hrest).2
      exact ⟨by rw [hsame], rfl⟩

theorem reads_tuple {elements : List Ty} (helements : ReadableList elements)
    (hreads : ∀ element ∈ elements, Reads element) : ReadsCore (.tuple elements) := by
  intro d r r' hd hr hr' heq
  obtain ⟨hword, hrest⟩ := (Core.tuple helements).split hd hr hr' heq
  cases hd with
  | predefined q =>
    have hempty : "" = q.keyword := hword
    exact absurd (hempty ▸ keyword_mem_keywords q) (by decide)
  | dynamic =>
    have hempty : "" = "dynamic" := hword
    exact absurd hempty (by decide)
  | named hname _ => exact absurd hword.symm hname.ne_empty
  | tuple helements' =>
    simp only [brackets, List.cons_append, List.append_assoc, List.cons.injEq, true_and,
      List.nil_append] at hrest
    obtain ⟨rfl, rfl⟩ := textList_inj (.inr rfl) hreads helements helements' hrest
    exact ⟨rfl, rfl⟩

end Core

mutual

theorem readsCore (ty : Ty) (h : ty.Readable) : ReadsCore ty.core := by
  match ty with
  -- The core of an array or nullable type is that of the type inside, whatever the suffixes.
  | .array element => exact readsCore element h
  | .nullable inner => exact readsCore inner h
  | .predefined p => exact Core.reads_keyword (.predefined p) (Facts.keywordType?_keyword p)
  | .dynamic => exact Core.reads_keyword .dynamic rfl
  | .named space name args =>
    obtain ⟨rfl, hname, hargs⟩ := h
    exact Core.reads_named hname hargs (reads_of_mem args hargs)
  | .tuple elements => exact Core.reads_tuple h (reads_of_mem elements h)
  | .anonymous | .error => cases h

theorem reads_of_mem (tys : List Ty) (h : ReadableList tys) : ∀ ty ∈ tys, Reads ty := by
  match tys with
  | [] => simp
  | ty :: tys =>
    exact List.forall_mem_cons.mpr ⟨reads_of_core (readsCore ty h.1), reads_of_mem tys h.2⟩

end

/-- Two types that can be spelled, and in which the names are words, are spelled alike exactly if
    they are the same but for the namespaces of the named types in them. -/
theorem spell_text_inj {a b : Ty} (ha : a.isNameable = true) (hb : b.isNameable = true)
    (hwords : ∀ part ∈ a.namedParts, IsWord part.2)
    (hwords' : ∀ part ∈ b.namedParts, IsWord part.2) :
    ∃ x y, a.spell.result = .ok x ∧ b.spell.result = .ok y ∧
      (x.text = y.text ↔ a.withoutNamespaces = b.withoutNamespaces) := by
  have hspelled : ∀ {ty : Ty}, ty.isNameable = true → ∃ type, ty.spell.result = .ok type := by
    intro ty hty
    have hblames := ty.blames_spell
    rwa [ty.isNameable_iff.mp hty] at hblames
  obtain ⟨x, hx⟩ := hspelled ha
  obtain ⟨y, hy⟩ := hspelled hb
  refine ⟨x, y, hx, hy, ?_⟩
  rw [text_of_spell hx, text_of_spell hy]
  constructor
  · intro htext
    have hreads : Reads a.withoutNamespaces :=
      reads_of_core (readsCore _ (readable_withoutNamespaces a ha hwords))
    have hend : StartsIn closers [] := by simp [StartsIn]
    exact (hreads _ _ _ (readable_withoutNamespaces b hb hwords') hend hend (by rw [htext])).1
  · intro heq
    rw [heq]

/-- Two classes of one name that come from different namespaces are spelled alike. -/
theorem spell_text_inj_list :
    let element : Ty := .tuple [.array (.nullable (.predefined .int)), .named none "Größe" []]
    let a : Ty := .named (some "System.Collections") "List_2" [element]
    let b : Ty := .named (some "Lib") "List_2" [element]
    ∃ x y, a.spell.result = .ok x ∧ b.spell.result = .ok y ∧
      x.text = "List_2<(int?[], Größe)>" ∧ x.text = y.text ∧
      a.withoutNamespaces = b.withoutNamespaces := by
  intro element a b
  have hlist : IsWord "List_2" := isWord_of_identifier (by decide) (by decide) (by simp)
  have helement : IsWord "Größe" := ⟨by decide, by decide, by simp [delimiters]⟩
  have hwords (space : Option String) :
      ∀ part ∈ [(space, "List_2"), (none, "Größe")], IsWord part.2 :=
    List.forall_mem_cons.mpr ⟨hlist, List.forall_mem_singleton.mpr helement⟩
  obtain ⟨x, y, hx, hy, htext⟩ := spell_text_inj (a := a) (b := b) rfl rfl (hwords _) (hwords _)
  cases hx
  cases hy
  exact ⟨_, _, rfl, rfl, by rfl, by rfl, htext.mp (by rfl)⟩

end Ty

end TypeStyle
