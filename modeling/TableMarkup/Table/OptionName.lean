import TableMarkup.Members
import TableMarkup.Text.Letters

/-!
# Option names

Attribute names carry no letter case, the options of a table do: `data-dt_scrolly` means the option
`scrollY`. The table of options says which short, lower-case name means which option.

* `canonical?` finds the option that a short name means, in whatever letter case.
* `isCanonical` says whether a name is the proper name of an option.
-/

namespace TableMarkup.OptionName

/-- The option that makes a table give way to its successor. -/
def destroy : String := "destroy"

def columns : String := "columns"

def table : List (String × String) :=
  [("autowidth", "autoWidth"),
    ("deferrender", "deferRender"),
    ("info", "info"),
    ("jqueryui", "jQueryUI"),
    ("lengthchange", "lengthChange"),
    ("ordering", "ordering"),
    ("paging", "paging"),
    ("processing", "processing"),
    ("scrollx", "scrollX"),
    ("scrolly", "scrollY"),
    ("searching", "searching"),
    ("serverside", "serverSide"),
    ("statesave", "stateSave"),
    ("data", "data"),
    ("ajax", "ajax"),
    ("createdrow", "createdRow"),
    ("drawcallback", "drawCallback"),
    ("footercallback", "footerCallback"),
    ("formatnumber", "formatNumber"),
    ("headercallback", "headerCallback"),
    ("infocallback", "infoCallback"),
    ("initcomplete", "initComplete"),
    ("predrawcallback", "preDrawCallback"),
    ("rowcallback", "rowCallback"),
    ("stateloadcallback", "stateLoadCallback"),
    ("stateloaded", "stateLoaded"),
    ("stateloadparams", "stateLoadParams"),
    ("statesavecallback", "stateSaveCallback"),
    ("statesaveparams", "stateSaveParams"),
    ("deferloading", "deferLoading"),
    ("destroy", "destroy"),
    ("displaystart", "displayStart"),
    ("dom", "dom"),
    ("lengthmenu", "lengthMenu"),
    ("ordercellstop", "orderCellsTop"),
    ("orderclasses", "orderClasses"),
    ("order", "order"),
    ("orderfixed", "orderFixed"),
    ("ordermulti", "orderMulti"),
    ("pagelength", "pageLength"),
    ("pagingtype", "pagingType"),
    ("renderer", "renderer"),
    ("retrieve", "retrieve"),
    ("scrollcollapse", "scrollCollapse"),
    ("search", "search"),
    ("stateduration", "stateDuration"),
    ("stripeclasses", "stripeClasses"),
    ("tabindex", "tabIndex"),
    ("columndefs", "columnDefs"),
    ("columns", "columns"),
    ("language", "language"),
    ("tabletools", "tableTools"),
    ("scroller", "scroller"),
    ("responsive", "responsive")]

def canonical? (short : String) : Option String :=
  Members.get? (Text.lower short) table

def isCanonical (name : String) : Bool :=
  table.any fun (_, canonical) => canonical = name

end TableMarkup.OptionName
