import Mathlib
import LabelHooks.Config.Loader
import LabelHooks.Proofs.Paths

/-!
The environment variable of a key gives the key back. Dots become pairs of underscores, and pairs
are read from the left, so all depends on where a key may have underscores of its own.
-/

namespace LabelHooks
set_option autoImplicit true

theorem Text.join_splitOn (sep : UInt8) (t : Text) : join [sep] (splitOn sep t) = t := by
  induction t with
  | nil => rfl
  | cons b t ih =>
    rw [splitOn]
    obtain ⟨first, more, hsplit⟩ := List.exists_cons_of_ne_nil (splitOn_ne_nil sep t)
    rw [hsplit] at ih ⊢
    split
    · next hb =>
      calc join [sep] ([] :: first :: more)
        _ = sep :: join [sep] (first :: more) := rfl
        _ = b :: t := by rw [ih, hb]
    · cases more <;> simpa [join] using ih

namespace Config

def dot : UInt8 := byte '.'

def underscore : UInt8 := byte '_'

def letters : Text := "abcdefghijklmnopqrstuvwxyz0123456789_"

/-- A word of a key: underscores stand only alone and between other letters. -/
@[mk_iff]
structure IsWord (word : Text) : Prop where
  nonempty : word ≠ []
  letters : ∀ b ∈ word, b ∈ letters
  first : word.head? ≠ some underscore
  last : word.getLast? ≠ some underscore
  single : word.IsChain fun a b => a = underscore → b ≠ underscore

instance : DecidablePred IsWord := fun word => decidable_of_iff _ (isWord_iff word).symm

def IsKey (key : Text) : Prop := ∀ word ∈ Text.splitOn dot key, IsWord word

/-- What stands for a byte of a key in its variable, before it is raised. -/
def widen (b : UInt8) : Text := if b = dot then [underscore, underscore] else [b]

theorem replace_dot (key : Text) : Text.replace [dot] [underscore, underscore] key =
    key.flatMap widen := by
  rw [Text.replace]
  induction key with
  | nil => rfl
  | cons b key ih =>
    rw [Text.replaceFrom, List.flatMap_cons, widen]
    by_cases h : b = dot
    · simpa [Text.hasPrefix, h] using ih
    · simpa [Text.hasPrefix, h, Ne.symm h] using ih

/-- An underscore is taken for half of a dot only if another underscore or a dot follows it. -/
theorem replace_pair {key : Text}
    (h : key.IsChain fun a b => a = underscore → b ≠ underscore ∧ b ≠ dot) :
    Text.replace [underscore, underscore] [dot] (key.flatMap widen) = key := by
  rw [Text.replace]
  induction key with
  | nil => rfl
  | cons b key ih =>
    have ih := ih h.tail
    rw [List.flatMap_cons, widen]
    split
    · next hb => simpa [Text.replaceFrom, Text.hasPrefix, hb] using ih
    · next hb =>
      have halone : Text.hasPrefix [underscore, underscore] (b :: key.flatMap widen) = false := by
        cases key with
        | nil => simp [Text.hasPrefix, List.isPrefixOf]
        | cons c key =>
          have hnext := (List.isChain_cons_cons.1 h).1
          simp only [Text.hasPrefix, widen, List.flatMap_cons]
          split <;> grind
      simpa [Text.replaceFrom, halone] using ih

theorem isChain_join {words : List Text} (h : ∀ word ∈ words, IsWord word) :
    (Text.join [dot] words).IsChain fun a b => a = underscore → b ≠ underscore ∧ b ≠ dot := by
  have halone : ∀ word ∈ words,
      word.IsChain fun a b => a = underscore → b ≠ underscore ∧ b ≠ dot := by
    intro word hword
    refine (h word hword).single.imp_of_mem_imp fun a b _ hb hab ha => ⟨hab ha, ?_⟩
    rintro rfl
    exact absurd ((h word hword).letters _ hb) (by decide)
  induction words with
  | nil => exact .nil
  | cons word words ih =>
    have hword := halone word List.mem_cons_self
    cases words with
    | nil => exact hword
    | cons next words =>
      have hrest := ih (fun w hw => h w (.tail _ hw)) fun w hw => halone w (.tail _ hw)
      have hjoin : Text.join [dot] (word :: next :: words) =
          word ++ dot :: Text.join [dot] (next :: words) := by simp [Text.join]
      rw [hjoin]
      refine hword.append (hrest.cons fun _ _ hdot => absurd hdot (by decide)) ?_
      rintro a ha b _ rfl
      exact absurd ha (h word List.mem_cons_self).last

theorem mem_letters_of_widen {key : Text} (h : IsKey key) :
    ∀ b ∈ key.flatMap widen, b ∈ letters := by
  intro b hb
  obtain ⟨a, ha, hb⟩ := List.mem_flatMap.1 hb
  rw [widen] at hb
  split at hb
  · have hb : b = underscore := by simpa using hb
    exact hb ▸ by decide
  · next hdot =>
    obtain rfl | ⟨word, hword, ha⟩ := Text.mem_splitOn dot ha
    · exact absurd rfl hdot
    · exact List.mem_singleton.1 hb ▸ (h word hword).letters a ha

theorem toLower_toUpper {t : Text} (h : ∀ b ∈ t, b ∈ letters) :
    Text.toLower (Text.toUpper t) = t := by
  have hcase : ∀ b ∈ letters, b < 0x80 ∧
      (if Text.isLower b then b - 32 else b) < 0x80 ∧
      (if Text.isUpper (if Text.isLower b then b - 32 else b)
        then (if Text.isLower b then b - 32 else b) + 32
        else if Text.isLower b then b - 32 else b) = b := by decide +kernel
  have hascii : Text.isAscii t = true :=
    List.all_eq_true.2 fun b hb => decide_eq_true (hcase b (h b hb)).1
  have hraised : Text.isAscii (t.map fun b => if Text.isLower b then b - 32 else b) = true := by
    rw [Text.isAscii, List.all_map, List.all_eq_true]
    exact fun b hb => decide_eq_true (hcase b (h b hb)).2.1
  rw [Text.toUpper, if_pos hascii, Text.toLower, if_pos hraised, List.map_map]
  exact (List.map_congr_left fun b hb => (hcase b (h b hb)).2.2).trans (List.map_id t)

theorem envKey_of_isKey {key : Text} (h : IsKey key) : envKey (envName key) = key := by
  have hdrop : Text.dropPrefix envStart (envName key) = Text.toUpper (key.flatMap widen) := by
    have hwide : Text.replace "." "__" key = key.flatMap widen := replace_dot key
    simp [envName, hwide, Text.dropPrefix, Text.hasPrefix]
  rw [envKey, hdrop, toLower_toUpper (mem_letters_of_widen h)]
  refine replace_pair ?_
  rw [← Text.join_splitOn dot key]
  exact isChain_join h

theorem ofEnv_envName {key : Text} (h : IsKey key) (env : List (Text × Text)) (value : Text) :
    ofEnv (env ++ [(envName key, value)]) =
      Yaml.putPath (ofEnv env) (Text.splitOn dot key) (.string value) := by
  have hstart : Text.hasPrefix envStart (envName key) = true := by
    simp [envName, Text.hasPrefix]
  have hne : key ≠ [] := by
    rintro rfl
    exact (h [] (.head _)).nonempty rfl
  simp [ofEnv, List.foldl_append, envKey_of_isKey h, hstart, hne, dot]

/-- Every key is read back from its variable, so that no two keys share one, and the value of the
variable is filed under the key. -/
theorem envName_faithful {key : Text} (h : IsKey key) : envKey (envName key) = key ∧
    (∀ other, IsKey other → other ≠ key → envName other ≠ envName key) ∧
    ∀ env value, ofEnv (env ++ [(envName key, value)]) =
      Yaml.putPath (ofEnv env) (Text.splitOn dot key) (.string value) := by
  refine ⟨envKey_of_isKey h, fun other hother hne heq => hne ?_, ofEnv_envName h⟩
  rw [← envKey_of_isKey hother, heq, envKey_of_isKey h]

theorem envName_faithful_words :
    envKey (envName "sugar.ignore_member_expr") = "sugar.ignore_member_expr" ∧
      envName "sugar.ignore.member_expr" ≠ envName "sugar.ignore_member_expr" ∧
      ofEnv [(envName "sugar.ignore_member_expr", ("true" : Text))] =
        [(("sugar" : Text), Yaml.map [(("ignore_member_expr" : Text), .string "true")])] := by
  have hkey : IsKey "sugar.ignore_member_expr" := by unfold IsKey; decide +kernel
  have hother : IsKey "sugar.ignore.member_expr" := by unfold IsKey; decide +kernel
  obtain ⟨hback, hapart, hfiled⟩ := envName_faithful hkey
  exact ⟨hback, hapart _ hother (by decide +kernel), (hfiled [] "true").trans rfl⟩

end Config
end LabelHooks
