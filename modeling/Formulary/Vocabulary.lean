/-!
# Vocabulary

The IRIs that form schemas and their instances are written with.
-/

namespace Formulary

namespace Rdf
def ns : String := "http://www.w3.org/1999/02/22-rdf-syntax-ns#"
def type : String := "http://www.w3.org/1999/02/22-rdf-syntax-ns#type"
def first : String := "http://www.w3.org/1999/02/22-rdf-syntax-ns#first"
def rest : String := "http://www.w3.org/1999/02/22-rdf-syntax-ns#rest"
def nil : String := "http://www.w3.org/1999/02/22-rdf-syntax-ns#nil"
def langString : String := "http://www.w3.org/1999/02/22-rdf-syntax-ns#langString"
end Rdf

namespace Xsd
def ns : String := "http://www.w3.org/2001/XMLSchema#"
def string : String := "http://www.w3.org/2001/XMLSchema#string"
def integer : String := "http://www.w3.org/2001/XMLSchema#integer"
def decimal : String := "http://www.w3.org/2001/XMLSchema#decimal"
def double : String := "http://www.w3.org/2001/XMLSchema#double"
def boolean : String := "http://www.w3.org/2001/XMLSchema#boolean"
end Xsd

/-! ## Forms -/

namespace FormNs
def ns : String := "http://lblod.data.gift/vocabularies/forms/"
def form : String := "http://lblod.data.gift/vocabularies/forms/Form"
def extension : String := "http://lblod.data.gift/vocabularies/forms/Extension"
def field : String := "http://lblod.data.gift/vocabularies/forms/Field"
def generator : String := "http://lblod.data.gift/vocabularies/forms/Generator"
def includes : String := "http://lblod.data.gift/vocabularies/forms/includes"
def displayType : String := "http://lblod.data.gift/vocabularies/forms/displayType"
def targetType : String := "http://lblod.data.gift/vocabularies/forms/targetType"
def targetLabel : String := "http://lblod.data.gift/vocabularies/forms/targetLabel"
def prototype : String := "http://lblod.data.gift/vocabularies/forms/prototype"
def shape : String := "http://lblod.data.gift/vocabularies/forms/shape"
def scope : String := "http://lblod.data.gift/vocabularies/forms/scope"
end FormNs

namespace Sh
def ns : String := "http://www.w3.org/ns/shacl#"
def path : String := "http://www.w3.org/ns/shacl#path"
def inversePath : String := "http://www.w3.org/ns/shacl#inversePath"
def group : String := "http://www.w3.org/ns/shacl#group"
def order : String := "http://www.w3.org/ns/shacl#order"
def name : String := "http://www.w3.org/ns/shacl#name"
end Sh

namespace Mu
def ns : String := "http://mu.semte.ch/vocabularies/core/"
def uuid : String := "http://mu.semte.ch/vocabularies/core/uuid"
end Mu

namespace Ext
def ns : String := "http://mu.semte.ch/vocabularies/ext/"
def extendsForm : String := "http://mu.semte.ch/vocabularies/ext/extendsForm"
def extendsGroup : String := "http://mu.semte.ch/vocabularies/ext/extendsGroup"
def uriPrefix : String := "http://mu.semte.ch/vocabularies/ext/prefix"
end Ext

namespace Dct
def ns : String := "http://purl.org/dc/terms/"
def modified : String := "http://purl.org/dc/terms/modified"
end Dct

end Formulary
