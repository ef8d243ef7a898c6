/-!
Stop words: words too common to say anything about a text, by language.
-/

namespace Deliberation.Words

def english : List String := [
  "about", "above", "after", "again", "against", "all", "also", "and", "any", "are", "because",
  "been", "before", "being", "below", "between", "both", "but", "can", "could", "did", "does",
  "doing", "down", "during", "each", "few", "for", "from", "further", "had", "has", "have",
  "having", "her", "here", "hers", "herself", "him", "himself", "his", "how", "into", "its",
  "itself", "just", "more", "most", "not", "now", "off", "once", "only", "other", "our", "ours",
  "ourselves", "out", "over", "own", "same", "she", "should", "some", "such", "than", "that",
  "the", "their", "theirs", "them", "themselves", "then", "there", "these", "they", "this",
  "those", "through", "too", "under", "until", "very", "was", "were", "what", "when", "where",
  "which", "while", "who", "whom", "why", "will", "with", "would", "you", "your", "yours",
  "yourself", "yourselves"]

def french : List String := [
  "alors", "aucun", "aussi", "autre", "avant", "avec", "avoir", "bon", "car", "ceci", "cela",
  "celle", "celles", "celui", "ces", "cet", "cette", "ceux", "chaque", "comme", "comment", "dans",
  "des", "donc", "dont", "elle", "elles", "encore", "entre", "est", "été", "étaient", "était",
  "être", "eux", "fait", "faire", "ici", "ils", "les", "leur", "leurs", "lui", "mais", "même",
  "mes", "moi", "mon", "nos", "notre", "nous", "par", "parce", "pas", "peu", "peut", "plus",
  "pour", "pourquoi", "quand", "que", "quel", "quelle", "quelles", "quels", "qui", "sans", "ses",
  "seulement", "sien", "son", "sont", "sous", "sur", "tandis", "tellement", "tes", "toi", "ton",
  "tous", "tout", "toute", "toutes", "très", "une", "vos", "votre", "vous"]

/-- The language of a locale: what stands before the first underscore or hyphen, in lower case of
ASCII. -/
def language (locale : String) : String :=
  String.ofList ((locale.toList.takeWhile fun c => c != '_' && c != '-').map Char.toLower)

/-- The stop words of a locale; none for a language without a list. -/
def stopWords (locale : String) : List String :=
  match language locale with
  | "en" => english
  | "fr" => french
  | _ => []

/-- Whether a word in lower case is a stop word of one of the locales. -/
def isStopWord (locales : List String) (word : String) : Bool :=
  locales.any fun locale => (stopWords locale).contains word

end Deliberation.Words
